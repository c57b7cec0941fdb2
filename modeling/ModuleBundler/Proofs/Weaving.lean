import ModuleBundler.Proofs.Gaps
import ModuleBundler.Proofs.Trivia

/-
  Scanning loses nothing. A script that is scanned is woven of its tokens and of gaps in which the
  scanner finds nothing when it reads them on their own (`Woven`); only the first gap may begin with
  a hashbang line. Every script is scanned in this way or refused for a fault that lies in it, and
  however far the scanner comes, it never takes more off its depth than there is
  (`lossless_or_fault`).
-/

namespace ModuleBundler.Script

variable {s s' : Scanner} {input rest chars gap more : List Char} {t : Token}
  {ts tokens : List Token} {source : String} {offset k : Nat} {newline : Bool}

/-! ## Gaps on their own -/

/-- In front of the token of a turn there are blanks and whole comments. -/
theorem Scanner.Turn.exists_gap (h : s.Turn input t s' rest) :
    ∃ gap, input = gap ++ (t.text.toList ++ rest) ∧ Trivia gap ∧
      (t.newlineBefore = true ↔ EndsLine gap) ∧ t.start = s.position.after gap ∧
      s'.position = t.start.after t.text.toList := by
  obtain ⟨gap, hinput, hblank, hstart, hposition⟩ := h.split
  obtain ⟨c, cs, htext, -⟩ := h.exists_head
  have hdrop : input.drop gap.length = c :: (cs ++ rest) := by
    rw [hinput, List.drop_left, htext, List.cons_append]
  obtain ⟨htrivia, hends, -⟩ := trivia_of_blankLength hblank hdrop
  rw [hinput, List.take_left] at htrivia hends
  exact ⟨gap, hinput, htrivia, hends, hstart, hposition⟩

/-- The scanner finds nothing in a text that is blank to its end. -/
theorem scanChars_of_blank (hblank : blankLength .between 0 false gap = .ok (k, newline))
    (hend : gap.drop k = []) : scanChars gap = .ok [] := by
  have hhashbang : hashbangLength gap = 0 := by
    unfold hashbangLength
    split
    · next cs =>
      have hstop : blankLength .between 0 false ('#' :: '!' :: cs) = .ok (0, false) :=
        blankLength_of_endsBlank (by decide) 0 false _
      obtain rfl : 0 = k := (Prod.mk.inj (Except.ok.inj (hstop.symm.trans hblank))).1
      cases hend
    · rfl
  have hfinds : Scanner.initial.Finds gap [] := .stop hblank hend rfl
  rw [scanChars, hhashbang]
  exact hfinds.run_eq

theorem scanChars_of_trivia (h : Trivia gap) : scanChars gap = .ok [] := by
  obtain ⟨ends, -, hread⟩ := h.exists_blankLength
  have hblank := hread 0 false []
  rw [List.append_nil, Nat.zero_add] at hblank
  exact scanChars_of_blank hblank List.drop_length

/-- A hashbang line goes up to a line feed or to the end of the script. -/
theorem hashbang_cases (chars : List Char) : hashbangLength chars = 0 ∨
    ∃ line, chars.take (hashbangLength chars) = '#' :: '!' :: line ∧ line.all (· != '\n') = true ∧
      ∀ c ∈ (chars.drop (hashbangLength chars)).head?, c = '\n' := by
  unfold hashbangLength
  split
  · next cs =>
    refine Or.inr ⟨cs.takeWhile (· != '\n'), ?_, List.all_takeWhile, ?_⟩
    · rw [Nat.add_comm, List.take_succ_cons, List.take_succ_cons,
        ← List.prefix_iff_eq_take.1 (List.takeWhile_prefix _)]
    · intro c hc
      have hrest : cs.drop (cs.takeWhile (· != '\n')).length = cs.dropWhile (· != '\n') := by
        conv => lhs; arg 2; rw [← List.takeWhile_append_dropWhile (p := (· != '\n')) (l := cs)]
        exact List.drop_left
      rw [← List.drop_drop, List.drop_succ_cons, List.drop_succ_cons, List.drop_zero, hrest] at hc
      have hstop := List.head?_dropWhile_not (· != '\n') cs
      rw [hc] at hstop
      simpa using hstop
  · exact Or.inl rfl

theorem hashbangLength_of_head (h : ∀ c ∈ chars.head?, c = '\n') : hashbangLength chars = 0 := by
  unfold hashbangLength
  split
  · next cs => exact absurd (h '#' rfl) (by decide)
  · rfl

/-- Behind a hashbang line, the scanner goes on with the body. -/
theorem scanChars_line {line : List Char} (hall : line.all (· != '\n') = true)
    (hhead : ∀ c ∈ chars.head?, c = '\n') : scanChars ('#' :: '!' :: (line ++ chars)) =
      { Scanner.initial with position := Position.first.after ('#' :: '!' :: line) }.run chars := by
  have hlength : hashbangLength ('#' :: '!' :: (line ++ chars)) = 2 + line.length := by
    rw [hashbangLength, takeWhile_append_of_all hall]
    exact fun c hc => by rw [hhead c hc]; rfl
  rw [scanChars, hlength, ← List.drop_drop, Nat.add_comm 2]
  dsimp only
  rw [List.take_succ_cons, List.take_succ_cons, List.take_left, List.drop_succ_cons,
    List.drop_succ_cons, List.drop_zero, List.drop_left]

/-- The hashbang line adds nothing to the first gap. -/
theorem scanChars_hashbang (hbody : chars.drop (hashbangLength chars) = gap ++ more)
    (hgap : scanChars gap = .ok []) :
    scanChars (chars.take (hashbangLength chars) ++ gap) = .ok [] := by
  rcases hashbang_cases chars with hzero | ⟨line, hline, hall, hhead⟩
  · rwa [hzero]
  · have hfirst : ∀ c ∈ gap.head?, c = '\n' := by
      intro c hc
      exact hhead c (by rw [hbody, List.head?_append, hc]; rfl)
    rw [scanChars, hashbangLength_of_head hfirst] at hgap
    obtain ⟨found, hnone, hfound⟩ := Scanner.finds_of_run hgap
    obtain rfl : found = [] := (List.append_eq_nil_iff.1 hnone.symm).2
    rw [hline, List.cons_append, List.cons_append, scanChars_line hall hfirst]
    cases hfound with
    | stop hblank hend hsub => exact Scanner.Finds.run_eq (.stop hblank hend rfl)

/-! ## Tokens and gaps -/

/-- Whether a text, from an offset on, is made of these tokens, each where it says, and of gaps
around them in which the scanner finds nothing. -/
inductive Woven : Nat → List Char → List Token → Prop
  | gap {offset : Nat} {gap : List Char} (hgap : scanChars gap = .ok []) : Woven offset gap []
  | token {offset : Nat} {gap rest : List Char} {t : Token} {ts : List Token}
      (hgap : scanChars gap = .ok []) (hstart : t.start.offset = offset + byteSize gap)
      (hrest : Woven t.stop rest ts) : Woven offset (gap ++ (t.text.toList ++ rest)) (t :: ts)

theorem Scanner.Finds.woven (h : s.Finds input ts) : Woven s.position.offset input ts := by
  induction h with
  | stop hblank hend hsub => exact .gap (scanChars_of_blank hblank hend)
  | @turn s s' input rest t ts hturn hrest ih =>
    obtain ⟨gap, rfl, hgap, -, hstart, hposition⟩ := hturn.exists_gap
    rw [hposition, Position.offset_after, ← t.stop_eq] at ih
    refine .token (scanChars_of_trivia hgap) ?_ ih
    rw [hstart, Position.offset_after]

theorem Woven.after_hashbang (h : Woven (byteSize (chars.take (hashbangLength chars)))
    (chars.drop (hashbangLength chars)) tokens) : Woven 0 chars tokens := by
  have hsplit := List.take_append_drop (hashbangLength chars) chars
  generalize hbody : chars.drop (hashbangLength chars) = body at h hsplit
  generalize hline : chars.take (hashbangLength chars) = line at h hsplit
  rw [← hsplit]
  cases h with
  | gap hgap =>
    rw [← List.append_nil body] at hbody
    exact .gap (hline ▸ scanChars_hashbang hbody hgap)
  | token hgap hstart hrest =>
    rw [← List.append_assoc]
    refine .token (hline ▸ scanChars_hashbang hbody hgap) ?_ hrest
    rw [hstart, byteSize_append, Nat.zero_add]

theorem woven_of_scan (h : scan source = .ok tokens) : Woven 0 source.toList tokens := by
  have hwoven := (finds_of_scan h).woven
  rw [show (Scanner.atBody source).position.offset = _ from Position.offset_after _ _,
    Position.first, Nat.zero_add] at hwoven
  exact hwoven.after_hashbang

/-- No token is empty. -/
theorem Scanner.Finds.start_lt_stop (h : s.Finds input ts) : ∀ t ∈ ts, t.start.offset < t.stop := by
  intro t ht
  obtain ⟨c, cs, htext, -⟩ := h.exists_head t ht
  have := c.utf8Size_pos
  rw [t.stop_eq, htext, byteSize_cons]
  omega

/-! ## Strings -/

/-- Whether a text begins and ends with the same quote, so that there is a body in between that
`stringValue` reads. -/
def IsQuoted (text : String) : Prop :=
  ∃ quote ∈ ['"', '\x27'], ∃ body, text.toList = quote :: (body ++ [quote]) ∧
    stringValue text = String.ofList (bodyValue body)

theorem isQuoted_of_lexemeAt {closing regex : Bool} {c : Char} {more : Nat}
    (h : lexemeAt closing regex c rest = .ok (.plain .string more)) :
    IsQuoted (String.ofList (c :: rest.take more)) := by
  unfold lexemeAt at h
  split at h
  · next hquote =>
    split at h
    · next more' hlength =>
      cases h
      obtain ⟨body, after, rfl, rfl⟩ := exists_quote_of_stringLength hlength
      have htake : (body ++ c :: after).take (0 + body.length + 1) = body ++ [c] := by
        rw [Nat.zero_add, List.take_length_add_append]
        rfl
      rw [Bool.or_eq_true, beq_iff_eq, beq_iff_eq] at hquote
      refine ⟨c, by simpa using hquote, body, ?_, ?_⟩
      · rw [String.toList_ofList, htake]
      · rw [stringValue, String.toList_ofList, htake]
        simp
    · cases h
  · repeat' split at h
    all_goals cases h

theorem Scanner.Finds.isQuoted (h : s.Finds input ts) :
    ∀ t ∈ ts, t.kind = .string → IsQuoted t.text := by
  induction h with
  | stop hblank hend hsub =>
    rintro t ⟨⟩
  | @turn s s' input rest t ts hturn hrest ih =>
    refine List.forall_mem_cons.2 ⟨fun hkind => ?_, ih⟩
    cases hturn with
    | @take gap cs newline c lexeme hinput hblank hlexeme hmore htake hdone =>
      have hchars : c :: cs = c :: (cs ++ rest).take lexeme.more := by rw [hmore, List.take_left]
      rw [hchars] at htake
      obtain ⟨depth, rfl, -⟩ := Scanner.token_eq htake hdone
      cases lexeme with
      | template closes opens more => cases hkind
      | plain kind more =>
        obtain rfl : kind = .string := hkind
        exact isQuoted_of_lexemeAt hlexeme

/-! ## What scanning keeps -/

/-- What the tokens of a script keep of it. -/
structure Lossless (source : String) (tokens : List Token) : Prop where
  /-- The script is woven of the tokens and of gaps that scan to nothing. -/
  woven : Woven 0 source.toList tokens
  /-- Tokens are not empty. -/
  nonempty : ∀ t ∈ tokens, t.start.offset < t.stop
  /-- They come one after the other. -/
  ordered : tokens.Pairwise fun t u => t.start.offset < u.start.offset ∧ t.stop ≤ u.start.offset
  /-- They begin and end between characters. -/
  boundaries : ∀ t ∈ tokens, String.Pos.Raw.IsValid source ⟨t.start.offset⟩ ∧
    String.Pos.Raw.IsValid source ⟨t.stop⟩
  quoted : ∀ t ∈ tokens, t.kind = .string → IsQuoted t.text

/-- Whether the depth of the scanner never falls short, wherever it comes in a script: a brace that
ends a substitution is met inside of something, and in every turn the depth goes up and down exactly
with what the token opens and closes. -/
structure DepthSuffices (source : String) : Prop where
  substitution : ∀ s input, Scanner.Reached source s input → s.closesSubstitution = true →
    0 < s.depth
  turn : ∀ s input t s' rest, Scanner.Reached source s input → s.Turn input t s' rest →
    s'.depth + (closedBy t.word).toList.length = s.depth + (openedBy t.word).toList.length

theorem lossless_of_scan (h : scan source = .ok tokens) : Lossless source tokens where
  woven := woven_of_scan h
  nonempty := (finds_of_scan h).start_lt_stop
  ordered := by
    refine (laidOut_of_scan h).ordered.imp_of_mem fun {t u} ht hu hle => ⟨?_, hle⟩
    exact Nat.lt_of_lt_of_le ((finds_of_scan h).start_lt_stop t ht) hle
  boundaries := by
    have hcut : ∀ {n}, IsCut (source.toList.drop (hashbangLength source.toList))
        (byteSize (source.toList.take (hashbangLength source.toList))) n →
        String.Pos.Raw.IsValid source ⟨n⟩ := by
      intro n hn
      rw [← Nat.zero_add (byteSize _)] at hn
      have hwhole := hn.of_append
      rw [List.take_append_drop] at hwhole
      exact hwhole.isValid
    exact fun t ht => ⟨hcut ((laidOut_of_scan h).start t ht), hcut ((laidOut_of_scan h).stop t ht)⟩
  quoted := (finds_of_scan h).isQuoted

/-- Every script is scanned without loss, or refused for a fault that lies in it, and the depth of
the scanner never falls short on the way. -/
theorem lossless_or_fault (source : String) :
    ((∃ tokens, scan source = .ok tokens ∧ Lossless source tokens) ∨
      ∃ e, scan source = .error e ∧ IsScanFault e.fault) ∧ DepthSuffices source := by
  refine ⟨?_, ?_⟩
  · cases hscan : scan source with
    | ok tokens => exact Or.inl ⟨tokens, rfl, lossless_of_scan hscan⟩
    | error e => exact Or.inr ⟨e, rfl, Scanner.isScanFault_of_run hscan⟩
  · exact ⟨fun s input h hcloses => h.pos_of_closesSubstitution hcloses,
      fun s input t s' rest h hturn => h.depth_add hturn⟩

/-- A script with a hashbang line, comments, and a string in a template. -/
def hashbangSource : String :=
  "#!/usr/bin/env é\n/* \u2028 */ f(\x60a$\x7b'\\'' /* \x7d */\x7d\x60, /[/]é/g) // end"

/-- The hashbang line and all three comments are gaps. -/
theorem lossless_hashbangSource : ∃ tokens, scan hashbangSource = .ok tokens ∧ tokens.length = 8 ∧
    Lossless hashbangSource tokens := by
  obtain ⟨tokens, htokens, hlength⟩ : ∃ tokens, scan hashbangSource = .ok tokens ∧
      tokens.length = 8 := exists_ok_of_map_toOption (by decide +kernel)
  rcases (lossless_or_fault hashbangSource).1 with ⟨tokens', htokens', hlossless⟩ | ⟨e, he, -⟩
  · obtain rfl := Except.ok.inj (htokens'.symm.trans htokens)
    exact ⟨tokens', htokens', hlength, hlossless⟩
  · cases htokens.symm.trans he

end ModuleBundler.Script
