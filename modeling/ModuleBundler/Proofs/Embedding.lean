import ModuleBundler.Proofs.Nesting

/-
  Scanning a text inside another. `Reads` is what a scanner finds, wherever it stands. Two scanners
  go on alike if one has only read more before, and the other one nothing
  (`Inside`): what is open and what has been read before the text is neither looked at nor closed
  in it, as long as its words nest. Hence a text that ends with its line and that the scanner reads
  on its own is read with the same words wherever it follows an opening bracket or a semicolon
  (`scans_embedded`).
-/

namespace ModuleBundler.Script

variable {closing regex newline : Bool} {blank k d : Nat} {c : Char} {cs rest input : List Char}
  {lexeme : Lexeme} {start : Position} {stack stack' : List Bracket} {words words' : List Word}
  {outer s s' S : Scanner}

/-! ## Reading -/

/-- Whether a scanner reads a text to its end and finds these words. Places and ends of lines are
not told. -/
inductive Scanner.Reads : Scanner → List Char → List Word → Prop
  /-- Nothing but blanks is left. -/
  | stop {s : Scanner} {input : List Char} {blank : Nat} {newline : Bool}
      (hblank : blankLength .between 0 false input = .ok (blank, newline))
      (hend : input.drop blank = []) (hsub : s.substitutions = []) : Reads s input []
  /-- After blanks there is a lexeme. -/
  | word {s s' : Scanner} {input rest : List Char} {words : List Word} {c : Char} {blank : Nat}
      {newline newline' : Bool} {lexeme : Lexeme} {start : Position}
      (hblank : blankLength .between 0 false input = .ok (blank, newline))
      (hrest : input.drop blank = c :: rest)
      (hlexeme : lexemeAt s.closesSubstitution s.regexAllowed c rest = .ok lexeme)
      (htake : s.take start newline' lexeme (c :: rest.take lexeme.more) = .ok s')
      (hreads : Reads s' (rest.drop lexeme.more) words) :
      Reads s input ((lexeme.kind, String.ofList (c :: rest.take lexeme.more)) :: words)

theorem Scanner.reads_of_run {tokens : List Token} (h : s.run input = .ok tokens) :
    ∃ found, tokens = s.done.reverse ++ found ∧ s.Reads input (found.map Token.word) := by
  fun_induction Scanner.run s input with
  | case1 => cases h
  | case2 s input blank newline hblank hrest hempty =>
    cases h
    exact ⟨[], (List.append_nil _).symm, .stop hblank hrest (List.isEmpty_iff.1 hempty)⟩
  | case3 => cases h
  | case4 => cases h
  | case5 => cases h
  | case6 s input blank newline hblank start c rest hrest lexeme hlexeme s' htake ih =>
    obtain ⟨found, rfl, hfound⟩ := ih h
    obtain ⟨token, hdone, hword, -⟩ := Scanner.take_token htake
    refine ⟨token :: found, ?_, ?_⟩
    · rw [hdone, List.reverse_cons, List.append_assoc, List.singleton_append]
    · rw [List.map_cons, hword]
      exact .word hblank hrest hlexeme htake hfound

/-! ## Blanks -/

theorem blankLength_from (h : blankLength .between 0 false rest = .ok (blank, newline)) (k : Nat)
    (before : Bool) : blankLength .between k before rest = .ok (blank + k, before || newline) := by
  have hshift := blankLength_shift k .between 0 before rest
  have hor := blankLength_or .between 0 before false rest
  rw [Bool.or_false, h] at hor
  rw [hor, Nat.zero_add] at hshift
  exact hshift

/-- Blanks in front of a text do not matter. -/
theorem Scanner.Reads.after_blank (h : s.Reads rest words)
    (hblank : blankLength .between 0 false cs = .ok (cs.length, newline))
    (hparted : cs = [] ∨ IsParted cs rest) : s.Reads (cs ++ rest) words := by
  obtain ⟨m, hm, hfound⟩ := blankLength_append hblank (isSettled_between hparted)
  have hfound := (hfound.resolve_left (by omega)).2
  have hdrop : ∀ blank, (cs ++ rest).drop (blank + cs.length) = rest.drop blank := by
    intro blank
    rw [Nat.add_comm, List.drop_length_add_append]
  cases h with
  | stop hblank hend hsub =>
    rw [blankLength_from hblank] at hfound
    exact .stop hfound ((hdrop _).trans hend) hsub
  | word hblank hrest hlexeme htake hreads =>
    rw [blankLength_from hblank] at hfound
    exact .word hfound ((hdrop _).trans hrest) hlexeme htake hreads

/-! ## One scanner inside another -/

/-- Whether the last word that a scanner has read, if there is one, leaves no trace in what it reads
next. -/
def Scanner.IsFresh (s : Scanner) : Prop :=
  ∀ w ∈ (s.done.map Token.word).head?, w.1 = .punctuator ∧ w.2 ≠ ")" ∧ w.2 ≠ "]"

theorem Scanner.isFresh_initial : Scanner.initial.IsFresh := by
  rintro w ⟨⟩

/-- Whether a scanner `S` has read what `s` has read, after what an outer one has read. -/
structure Scanner.Inside (outer s S : Scanner) : Prop where
  depth : S.depth = s.depth + outer.depth
  substitutions : S.substitutions = s.substitutions.map (· + outer.depth)
  positive : ∀ n ∈ s.substitutions, 0 < n
  heads : S.heads = s.heads ++ outer.heads
  afterHead : s.done ≠ [] → S.afterHead = s.afterHead
  words : S.done.map Token.word = s.done.map Token.word ++ outer.done.map Token.word

namespace Scanner.Inside

theorem closesSubstitution_eq (h : Inside outer s S) :
    S.closesSubstitution = s.closesSubstitution := by
  rw [closesSubstitution, closesSubstitution, h.substitutions, h.depth, List.head?_map]
  cases s.substitutions.head? with
  | none => rfl
  | some n =>
    rw [Option.map_some, Bool.eq_iff_iff, beq_iff_eq, beq_iff_eq, Option.some_inj, Option.some_inj]
    exact Nat.add_right_cancel_iff

theorem regexAllowed_eq (h : Inside outer s S) (hfresh : outer.IsFresh) :
    S.regexAllowed = s.regexAllowed := by
  have hwords := h.words
  unfold regexAllowed
  match hs : s.done, hS : S.done with
  | [], [] => rfl
  | [], T :: Ts =>
    rw [hs, hS, List.map_nil, List.nil_append] at hwords
    obtain ⟨hkind, hparen, hsquare⟩ := hfresh T.word (by rw [← hwords]; rfl)
    have hkind : T.kind = .punctuator := hkind
    have hparen : T.text ≠ ")" := hparen
    have hsquare : T.text ≠ "]" := hsquare
    simp [hkind, hparen, hsquare]
  | t :: ts, [] => simp [hs, hS] at hwords
  | t :: ts, T :: Ts =>
    rw [hs, hS] at hwords
    have hword : T.word = t.word := (List.cons_eq_cons.1 hwords).1
    obtain ⟨hkind, htext⟩ := Prod.mk.inj hword
    simp only [hkind, htext, opensSubstitution, h.afterHead (by simp [hs])]

theorem isName_eq {T t : Token} (h : T.word = t.word) (name : String) :
    T.isName name = t.isName name := by
  obtain ⟨hkind, htext⟩ := Prod.mk.inj h
  rw [Token.isName, Token.isName, hkind, htext]

theorem opensHead_eq (h : Inside outer s S) (hfresh : outer.IsFresh) :
    S.opensHead = s.opensHead := by
  have hwords := h.words
  have hlast : ∀ (t : Token) (name : String),
      t.word ∈ (outer.done.map Token.word).head? → t.isName name = false := by
    intro t name ht
    have hkind : t.kind = .punctuator := (hfresh t.word ht).1
    simp [Token.isName, hkind]
  unfold opensHead
  match hs : s.done, hS : S.done with
  | [], [] => rfl
  | [], T :: Ts =>
    rw [hs, hS, List.map_nil, List.nil_append] at hwords
    have hT := fun name => hlast T name (by rw [← hwords]; rfl)
    simp [hT]
  | t :: ts, [] => simp [hs, hS] at hwords
  | [t], T :: Ts =>
    rw [hs, hS] at hwords
    obtain ⟨hword, hrest⟩ := List.cons_eq_cons.1 hwords
    cases Ts with
    | nil => simp [isName_eq hword]
    | cons T' Ts =>
      have hT := hlast T' "for" (by rw [← List.nil_append (outer.done.map _), ← List.map_nil,
        ← List.append_eq, ← hrest]; rfl)
      simp [isName_eq hword, hT]
  | t :: t' :: ts, [T] => simp [hs, hS] at hwords
  | t :: t' :: ts, T :: T' :: Ts =>
    rw [hs, hS] at hwords
    obtain ⟨hword, hrest⟩ := List.cons_eq_cons.1 hwords
    obtain ⟨hword', -⟩ := List.cons_eq_cons.1 hrest
    simp only [isName_eq hword, isName_eq hword']

/-! One lemma for each way to take a lexeme in. -/

theorem words_cons (h : Inside outer s S) {T t : Token} (hword : T.word = t.word) :
    (T :: S.done).map Token.word =
      (t :: s.done).map Token.word ++ outer.done.map Token.word := by
  rw [List.map_cons, List.map_cons, hword, h.words]
  rfl

theorem takeTemplate (h : Inside outer s S) (start start' : Position) (newline newline' : Bool)
    {closes : Bool} (hcloses : closes = true → s.closesSubstitution = true) (opens : Bool)
    (chars : List Char) :
    Inside outer (s.takeTemplate start newline closes opens chars)
      (S.takeTemplate start' newline' closes opens chars) := by
  have houtside : (if closes then S.depth - 1 else S.depth) =
      (if closes then s.depth - 1 else s.depth) + outer.depth := by
    rw [h.depth]
    cases closes with
    | false => rfl
    | true =>
      have hhead := hcloses rfl
      rw [closesSubstitution, beq_iff_eq] at hhead
      have := h.positive _ (List.mem_of_head? hhead)
      simp only [if_true]
      omega
  have hsub : (if closes then S.substitutions.tail else S.substitutions) =
      (if closes then s.substitutions.tail else s.substitutions).map (· + outer.depth) := by
    rw [h.substitutions]
    cases closes <;> simp
  have hpositive : ∀ n ∈ (if closes then s.substitutions.tail else s.substitutions), 0 < n := by
    cases closes with
    | false => exact h.positive
    | true => exact fun n hn => h.positive n (List.mem_of_mem_tail hn)
  refine ⟨?_, ?_, ?_, h.heads, fun _ => rfl, h.words_cons rfl⟩
  · dsimp only [Scanner.takeTemplate]
    rw [houtside]
    cases opens <;> simp [Nat.add_right_comm]
  · dsimp only [Scanner.takeTemplate]
    rw [houtside, hsub]
    cases opens <;> simp [Nat.add_right_comm]
  · dsimp only [Scanner.takeTemplate]
    cases opens with
    | false => exact hpositive
    | true => exact List.forall_mem_cons.2 ⟨Nat.succ_pos _, hpositive⟩

theorem takeOpener (h : Inside outer s S) (hfresh : outer.IsFresh) (start start' : Position)
    (newline newline' : Bool) (chars : List Char) :
    Inside outer (s.takeOpener start newline chars) (S.takeOpener start' newline' chars) := by
  refine ⟨?_, h.substitutions, h.positive, ?_, fun _ => rfl, h.words_cons rfl⟩
  · show S.depth + 1 = s.depth + 1 + outer.depth
    rw [h.depth, Nat.add_right_comm]
  · dsimp only [Scanner.takeOpener, push]
    rw [h.opensHead_eq hfresh, h.heads]
    split <;> rfl

theorem takeCloser {chars : List Char} (h : Inside outer s S)
    (hheads : chars = [')'] → s.heads = [] → outer.heads = [])
    (htake : s.takeCloser start newline chars = .ok s') (start' : Position) (newline' : Bool) :
    ∃ S', S.takeCloser start' newline' chars = .ok S' ∧ Inside outer s' S' := by
  unfold Scanner.takeCloser at htake ⊢
  cases hd : s.depth with
  | zero => simp [hd] at htake
  | succ d =>
    have hD : S.depth = (d + outer.depth) + 1 := by rw [h.depth, hd, Nat.add_right_comm]
    rw [hd] at htake
    rw [hD]
    dsimp only at htake ⊢
    split at htake
    · next hparen =>
      rw [if_pos hparen]
      cases htake
      have hempty : s.heads = [] → outer.heads = [] := hheads (beq_iff_eq.1 hparen)
      have hsplit : S.heads.tail = s.heads.tail ++ outer.heads ∧
          S.heads.head?.getD false = s.heads.head?.getD false := by
        rw [h.heads]
        cases hs : s.heads with
        | nil => rw [hempty hs]; exact ⟨rfl, rfl⟩
        | cons head heads => exact ⟨rfl, rfl⟩
      exact ⟨_, rfl, rfl, h.substitutions, h.positive, hsplit.1, fun _ => hsplit.2,
        h.words_cons rfl⟩
    · next hparen =>
      rw [if_neg hparen]
      cases htake
      exact ⟨_, rfl, rfl, h.substitutions, h.positive, h.heads, fun _ => rfl, h.words_cons rfl⟩

/-- What one scanner takes in, the one around it does too. Only a parenthesis that the inner one has
not opened would make a difference. -/
theorem take (h : Inside outer s S) (hfresh : outer.IsFresh)
    (hlexeme : lexemeAt s.closesSubstitution regex c rest = .ok lexeme)
    (hheads : c = ')' → s.heads = [] → outer.heads = [])
    (htake : s.take start newline lexeme (c :: rest.take lexeme.more) = .ok s')
    (start' : Position) (newline' : Bool) :
    ∃ S', S.take start' newline' lexeme (c :: rest.take lexeme.more) = .ok S' ∧
      Inside outer s' S' := by
  cases lexeme with
  | template closes opens more =>
    obtain ⟨hcloses, hclosing, -⟩ := template_of_lexemeAt hlexeme
    cases htake
    refine ⟨_, rfl, h.takeTemplate start start' newline newline' ?_ opens _⟩
    rintro rfl
    exact hclosing (beq_iff_eq.1 hcloses)
  | plain kind more =>
    rw [Scanner.take] at htake ⊢
    split at htake
    · next hopener =>
      rw [if_pos hopener]
      cases htake
      exact ⟨_, rfl, h.takeOpener hfresh start start' newline newline' _⟩
    · next hopener =>
      rw [if_neg hopener]
      split at htake
      · next hcloser =>
        rw [if_pos hcloser]
        exact h.takeCloser (fun hparen => hheads (List.cons_eq_cons.1 hparen).1) htake start' newline'
      · next hcloser =>
        rw [if_neg hcloser]
        cases htake
        exact ⟨_, rfl, h.depth, h.substitutions, h.positive, h.heads, fun _ => rfl,
          h.words_cons rfl⟩

end Scanner.Inside

/-! ## Runs -/

/-- Every scanner is inside the one that has read nothing. -/
theorem Scanner.inside_initial (hpositive : ∀ n ∈ s.substitutions, 0 < n) :
    Scanner.initial.Inside s s where
  depth := rfl
  substitutions := (List.map_id _).symm
  positive := hpositive
  heads := (List.append_nil _).symm
  afterHead := fun _ => rfl
  words := (List.append_nil _).symm

/-- What is read is found by running the scanner. -/
theorem Scanner.run_of_reads (h : s.Reads input words) (hS : Scanner.initial.Inside s S) :
    ∃ found, S.run input = .ok (S.done.reverse ++ found) ∧ found.map Token.word = words := by
  induction h generalizing S with
  | stop hblank hend hsub =>
    refine ⟨[], ?_, rfl⟩
    have hempty : S.substitutions = [] := by
      rw [hS.substitutions, hsub]
      rfl
    rw [run_eq, hblank]
    dsimp only
    rw [hend, hempty, List.append_nil]
    rfl
  | @word s s' input rest words c blank newline newline' lexeme start hblank hrest hlexeme htake
      hreads ih =>
    obtain ⟨S', hS', hinside⟩ := hS.take isFresh_initial hlexeme (fun _ _ => rfl) htake
      (S.position.after (input.take blank)) newline
    obtain ⟨found, hrun, hfound⟩ := ih hinside
    obtain ⟨token, hdone, hword, -⟩ := take_token hS'
    refine ⟨token :: found, ?_, ?_⟩
    · rw [run_eq, hblank]
      dsimp only
      rw [hrest]
      dsimp only
      rw [hS.closesSubstitution_eq, hS.regexAllowed_eq isFresh_initial, hlexeme]
      dsimp only
      rw [hS']
      dsimp only
      rw [hrun, hdone, List.reverse_cons, List.append_assoc, List.singleton_append]
    · rw [List.map_cons, hword, hfound]

/-- What a scanner reads on its own, one that has read more before reads too, in front of any text
that a line end parts from it. -/
theorem Scanner.Reads.inside (h : s.Reads input words) (hS : outer.Inside s S)
    (hfresh : outer.IsFresh) (htracks : s.Tracks stack)
    (hnest : nesting stack words = some stack') (hparted : input = [] ∨ IsParted input rest)
    (hrest : ∀ S' : Scanner, S'.substitutions = [] → S'.depth = stack'.length + outer.depth →
      S'.Reads rest words') : S.Reads (input ++ rest) (words ++ words') := by
  induction h generalizing S stack with
  | @stop s input blank newline hblank hend hsub =>
    obtain rfl := Option.some.inj hnest
    obtain ⟨m, hm, hfound⟩ := blankLength_append hblank (isSettled_between hparted)
    have hlength : blank = input.length := by
      have := List.drop_eq_nil_iff.1 hend
      omega
    subst hlength
    refine Reads.after_blank (hrest S ?_ ?_) hblank hparted
    · rw [hS.substitutions, hsub]
      rfl
    · rw [hS.depth, htracks.depth]
  | @word s s' input text words c blank newline newline' lexeme start hblank htext hlexeme htake
      hreads ih =>
    rw [nesting_cons, Option.bind_eq_some_iff] at hnest
    obtain ⟨inner, hword, hwords⟩ := hnest
    have hparted : IsParted input rest := hparted.resolve_left (by rintro rfl; simp at htext)
    have hsplit : input.take blank ++ (c :: text) = input := by
      rw [← htext, List.take_append_drop]
    have hparted' : IsParted (c :: text) rest := by
      rw [← hsplit] at hparted
      exact hparted.of_append (List.cons_ne_nil _ _)
    have hc : c ≠ '\n' := by
      obtain ⟨m, rfl, hstops⟩ := blankLength_stops hblank
      rw [Nat.zero_add] at htext
      rintro rfl
      exact absurd (hstops '\n' (by rw [htext]; rfl)).1 (by decide)
    have hmore := more_le_of_lexemeAt hlexeme
    have hlexeme' := lexemeAt_append hc hparted' hlexeme
    have hheads : c = ')' → s.heads = [] → outer.heads = [] := by
      rintro rfl hnone
      obtain rfl : Lexeme.plain .punctuator 0 = lexeme := Except.ok.inj hlexeme
      rcases nest_cases hword with ⟨⟨⟩, -⟩ | ⟨bracket, above, hbracket, rfl, -⟩
      obtain rfl : Bracket.parenthesis = bracket := Option.some.inj hbracket
      have hcount := htracks.heads
      rw [hnone, List.count_cons_self] at hcount
      cases hcount
    obtain ⟨S', hS', hinside⟩ := hS.take hfresh hlexeme hheads htake start newline'
    have hlength := congrArg List.length htext
    rw [List.length_drop, List.length_cons] at hlength
    have hblank' : blankLength .between 0 false (input ++ rest) = .ok (blank, newline) := by
      obtain ⟨m, hm, hfound⟩ := blankLength_append hblank (isSettled_between (Or.inr hparted))
      exact (hfound.resolve_right (by omega)).2
    have htext' : (input ++ rest).drop blank = c :: (text ++ rest) := by
      rw [List.drop_append_of_le_length (by omega), htext, List.cons_append]
    rw [← hS.closesSubstitution_eq, ← hS.regexAllowed_eq hfresh] at hlexeme'
    have htail : text.drop lexeme.more = [] ∨ IsParted (text.drop lexeme.more) rest := by
      by_cases hnil : text.drop lexeme.more = []
      · exact Or.inl hnil
      · rw [← List.take_append_drop lexeme.more text, ← List.cons_append] at hparted'
        exact Or.inr (hparted'.of_append hnil)
    have hreads' := ih hinside (htracks.take hlexeme htake hword) hwords htail
    have htake' : (text ++ rest).take lexeme.more = text.take lexeme.more :=
      List.take_append_of_le_length hmore
    rw [← htake'] at hS' ⊢
    rw [← List.drop_append_of_le_length hmore] at hreads'
    exact .word hblank' htext' hlexeme' hS' hreads'

/-! ## Texts in front of others -/

/-- The words that scanners find are those that they read. -/
theorem scans_iff : Scans d words cs ↔
    ∀ s : Scanner, s.substitutions = [] → s.depth = d → s.Reads cs words := by
  constructor
  · intro h s hsub hdepth
    obtain ⟨tokens, hrun, rfl⟩ := h s hsub hdepth
    obtain ⟨found, hfound, hreads⟩ := Scanner.reads_of_run hrun
    rwa [List.append_cancel_left hfound]
  · intro h s hsub hdepth
    refine Scanner.run_of_reads (h s hsub hdepth) (Scanner.inside_initial ?_)
    rw [hsub]
    rintro n ⟨⟩

/-- Whether a scanner as `Scans` has it finds these words if the word before leaves no trace. -/
def ScansFresh (d : Nat) (words : List Word) (cs : List Char) : Prop :=
  ∀ s : Scanner, s.IsFresh → s.substitutions = [] → s.depth = d → s.Reads cs words

/-- A text that the scanner reads on its own, in front of another. -/
theorem scans_embedded (h : Scanner.initial.Reads cs words)
    (hnest : nesting [] words = some stack) (hparted : cs = [] ∨ IsParted cs rest)
    (hrest : Scans (d + stack.length) words' rest) : ScansFresh d (words ++ words') (cs ++ rest) := by
  intro s hfresh hsub hdepth
  have hinside : s.Inside Scanner.initial s := by
    refine ⟨(Nat.zero_add _).symm, hsub, ?_, rfl, fun hne => absurd rfl hne, rfl⟩
    rintro n ⟨⟩
  refine h.inside hinside hfresh ⟨rfl, rfl⟩ hnest hparted ?_
  intro S' hsub' hdepth'
  exact scans_iff.1 hrest S' hsub' (by rw [hdepth', hdepth, Nat.add_comm])

theorem scans_blank (h : Scans d words rest)
    (hblank : blankLength .between 0 false cs = .ok (cs.length, newline))
    (hparted : cs = [] ∨ IsParted cs rest) : Scans d words (cs ++ rest) :=
  scans_iff.2 fun s hsub hdepth => (scans_iff.1 h s hsub hdepth).after_blank hblank hparted

theorem blankLength_newline : blankLength .between 0 false ['\n'] = .ok (['\n'].length, true) := rfl

theorem scans_newline (h : Scans d words rest) : Scans d words ('\n' :: rest) := by
  show Scans d words (['\n'] ++ rest)
  exact scans_blank h blankLength_newline (Or.inr (Or.inl rfl))

theorem ScansFresh.after_newline (h : ScansFresh d words rest) :
    ScansFresh d words ('\n' :: rest) := by
  intro s hfresh hsub hdepth
  show s.Reads (['\n'] ++ rest) words
  exact (h s hfresh hsub hdepth).after_blank blankLength_newline (Or.inr (Or.inl rfl))

/-- After a mark that opens or separates, the word before leaves no trace. -/
theorem scans_mark_fresh {d' : Nat} (hc : c ∈ marks) (hparen : c ≠ ')') (hsquare : c ≠ ']')
    (hdepth : depthAfterWord d (.punctuator, String.ofList [c]) = some d')
    (h : ScansFresh d' words rest) :
    Scans d ((.punctuator, String.ofList [c]) :: words) (c :: rest) := by
  refine scans_iff.2 fun s hsub hd => ?_
  rw [← hd] at hdepth
  obtain ⟨s', token, htake, hsub', hd', hdone, hword⟩ := take_plain s .punctuator 0 [c] hdepth
  have hfresh : s'.IsFresh := by
    intro w hw
    rw [hdone, List.map_cons, hword] at hw
    obtain rfl := Option.some.inj hw
    refine ⟨rfl, ?_, ?_⟩
    · exact fun heq => hparen (List.cons_eq_cons.1 (String.ofList_inj.1 heq)).1
    · exact fun heq => hsquare (List.cons_eq_cons.1 (String.ofList_inj.1 heq)).1
  have hlexeme := lexemeAt_of_mem_marks hc s.regexAllowed rest
  rw [← closesSubstitution_eq_false hsub] at hlexeme
  exact .word (blankLength_of_endsBlank (endsBlank_of_mem_marks hc) 0 false rest) rfl hlexeme htake
    (h s' hfresh (hsub'.trans hsub) hd')

end ModuleBundler.Script
