import ModuleBundler.Proofs.Isolation
import ModuleBundler.Transformer

/-
  How the brackets of a script match. The scanner counts brackets and does not compare their kinds,
  but for substitutions it keeps the depths at which they are open. `Keeps` says what it lets pass,
  from a depth and the depths of open substitutions on, and from it follows what is known of every
  script that is scanned to its end (`matched_of_scan`): no more is closed than is open, and each
  substitution is closed, in the order of nesting, by a brace that goes on with its template.
-/

namespace ModuleBundler.Script

variable {closing regex newline : Bool} {d n : Nat} {c : Char} {chars rest input : List Char}
  {kind : TokenKind} {lexeme : Lexeme} {more : Nat} {start : Position} {w : Word}
  {words front : List Word} {subs inner outer : List Nat} {s s' : Scanner}

/-! ## Counting brackets -/

/-- How many brackets words open, of whatever kind. -/
def openings (words : List Word) : Nat := words.countP fun w => (openedBy w).isSome

/-- How many brackets words close, of whatever kind. -/
def closings (words : List Word) : Nat := words.countP fun w => (closedBy w).isSome

/-- The parts of templates among words. -/
def templates (words : List Word) : List Word := words.filter fun w => w.1 == .template

/-- How the brackets of a script that the scanner accepts match. -/
structure Matched (words : List Word) : Prop where
  /-- Something is open in front of each bracket that closes. -/
  closer_open : ∀ front w rest, words = front ++ w :: rest → closedBy w ≠ none →
    closings front < openings front
  /-- Substitutions nest among themselves, and all are closed. -/
  templates_nest : nesting [] (templates words) = some []
  /-- Each substitution is closed where as much was closed in it as was opened. -/
  substitution_closed : ∀ front w rest, words = front ++ w :: rest →
    openedBy w = some .substitution → ∃ body w' rest', rest = body ++ w' :: rest' ∧
      closedBy w' = some .substitution ∧ nesting [] (templates body) = some [] ∧
      closings body = openings body

theorem openings_cons (w : Word) (words : List Word) :
    openings (w :: words) = openings words + (openedBy w).toList.length := by
  rw [openings, List.countP_cons, ← openings]
  cases openedBy w <;> rfl

theorem closings_cons (w : Word) (words : List Word) :
    closings (w :: words) = closings words + (closedBy w).toList.length := by
  rw [closings, List.countP_cons, ← closings]
  cases closedBy w <;> rfl

theorem closedBy_ne_substitution (h : w.1 ≠ .template) : closedBy w ≠ some .substitution := by
  rw [closedBy, if_neg fun htemplate : w.1 = .template ∧ _ => h htemplate.1]
  repeat' split
  all_goals decide

theorem openedBy_ne_substitution (h : w.1 ≠ .template) : openedBy w ≠ some .substitution := by
  rw [openedBy, if_neg fun htemplate : w.1 = .template ∧ _ => h htemplate.1]
  repeat' split
  all_goals decide

/-! ## What the scanner keeps -/

/-- The depths of the open substitutions after a word. -/
def substitutionsPast (d : Nat) (subs : List Nat) (w : Word) : List Nat :=
  (if openedBy w = some .substitution then [depthPast d w] else []) ++
    if closedBy w = some .substitution then subs.tail else subs

/-- What the scanner lets pass from a depth and the depths of open substitutions on. -/
inductive Keeps : Nat → List Nat → List Word → Prop
  | nil (d : Nat) : Keeps d [] []
  | cons {d : Nat} {subs : List Nat} {w : Word} {words : List Word}
      (hopen : closedBy w ≠ none → 0 < d)
      (hinnermost : closedBy w = some .substitution → subs.head? = some d)
      (hrest : Keeps (depthPast d w) (substitutionsPast d subs w) words) : Keeps d subs (w :: words)

theorem substitutionsPast_of_ne (h : w.1 ≠ .template) : substitutionsPast d subs w = subs := by
  rw [substitutionsPast, if_neg (openedBy_ne_substitution h), if_neg (closedBy_ne_substitution h),
    List.nil_append]

theorem positive_substitutionsPast (h : ∀ n ∈ subs, 0 < n) :
    ∀ n ∈ substitutionsPast d subs w, 0 < n := by
  intro n hn
  rcases List.mem_append.1 hn with hnew | hold
  · split at hnew
    · next hopens =>
      obtain rfl := List.mem_singleton.1 hnew
      rw [depthPast, hopens]
      exact Nat.succ_pos _
    · cases hnew
  · split at hold
    · exact h n (List.mem_of_mem_tail hold)
    · exact h n hold

theorem Scanner.take_plain (h : s.take start newline (.plain kind more) chars = .ok s')
    (hkind : kind ≠ .template) :
    s'.substitutions = s.substitutions ∧
      (closedBy (kind, String.ofList chars) ≠ none → 0 < s.depth) := by
  rw [take] at h
  split at h
  · next hopener =>
    cases h
    simp only [Bool.and_eq_true, Bool.or_eq_true, beq_iff_eq] at hopener
    obtain ⟨rfl, (rfl | rfl) | rfl⟩ := hopener <;> exact ⟨rfl, absurd rfl⟩
  · split at h
    · rw [takeCloser] at h
      split at h
      · cases h
      · next d hd =>
        dsimp only at h
        split at h <;> cases h <;> exact ⟨rfl, fun _ => hd ▸ Nat.succ_pos d⟩
    · next hcloser =>
      cases h
      exact ⟨rfl, fun hne => absurd (closedBy_plain hkind hcloser) hne⟩

/-- The scanner keeps the depths of open substitutions as the word says. -/
theorem Scanner.take_keeps (hlexeme : lexemeAt s.closesSubstitution regex c rest = .ok lexeme)
    (h : s.take start newline lexeme (c :: rest.take lexeme.more) = .ok s')
    (hpositive : ∀ n ∈ s.substitutions, 0 < n)
    (hw : w = (lexeme.kind, String.ofList (c :: rest.take lexeme.more))) :
    (closedBy w ≠ none → 0 < s.depth) ∧
      (closedBy w = some .substitution → s.substitutions.head? = some s.depth) ∧
      s'.substitutions = substitutionsPast s.depth s.substitutions w := by
  cases lexeme with
  | template closes opens more =>
    obtain ⟨rfl, hclosing, hopens⟩ := template_of_lexemeAt hlexeme
    obtain ⟨hdepth, -⟩ := Scanner.take_counts hlexeme h hw
    have hclosed : closedBy w = if c = '}' then some .substitution else none := by
      rw [hw, Lexeme.kind, closedBy_template, String.toList_ofList, List.head?_cons]
      simp only [Option.some.injEq]
    have hopened : openedBy w = if opens then some .substitution else none := by
      rw [hw, Lexeme.kind, openedBy_template, String.toList_ofList, ← hopens]
      rfl
    have hhead : c = '}' → s.substitutions.head? = some s.depth := fun hc =>
      beq_iff_eq.1 (hclosing hc)
    rw [substitutionsPast, ← hdepth, hclosed, hopened]
    cases h
    by_cases hc : c = '}'
    · refine ⟨fun _ => hpositive _ (List.mem_of_head? (hhead hc)), fun _ => hhead hc, ?_⟩
      cases opens <;> simp [takeTemplate, hc]
    · refine ⟨?_, ?_, ?_⟩
      · simp [hc]
      · simp [hc]
      · cases opens <;> simp [takeTemplate, push, hc]
  | plain kind more =>
    have hkind := ne_template_of_lexemeAt hlexeme
    have hplain : w.1 ≠ .template := by rw [hw]; exact hkind
    obtain ⟨hsub, hopen⟩ := Scanner.take_plain h hkind
    rw [substitutionsPast_of_ne hplain]
    exact ⟨hw ▸ hopen, fun hcloses => absurd hcloses (closedBy_ne_substitution hplain), hsub⟩

theorem keeps_of_reads (h : s.Reads input words) (hpositive : ∀ n ∈ s.substitutions, 0 < n) :
    Keeps s.depth s.substitutions words := by
  induction h with
  | stop hblank hend hsub => exact hsub ▸ .nil _
  | word hblank hrest hlexeme htake hreads ih =>
    obtain ⟨hopen, hinnermost, hsub⟩ := Scanner.take_keeps hlexeme htake hpositive rfl
    obtain ⟨hdepth, -⟩ := Scanner.take_counts hlexeme htake rfl
    rw [hsub, hdepth] at ih
    exact .cons hopen hinnermost (ih (positive_substitutionsPast hpositive))

/-! ## What follows from it -/

/-- Each word takes the depth on as it closes and opens. -/
theorem depthPast_add (h : closedBy w ≠ none → 0 < d) :
    depthPast d w + (closedBy w).toList.length = d + (openedBy w).toList.length := by
  rw [depthPast]
  cases hclosed : closedBy w with
  | none => rfl
  | some bracket =>
    have hd := h (by rw [hclosed]; exact Option.some_ne_none bracket)
    rw [Option.toList_some, List.length_singleton]
    omega

/-- After some of the words, the scanner stands at the depth that they count. -/
theorem Keeps.past (h : Keeps d subs (front ++ words)) :
    ∃ d' subs', Keeps d' subs' words ∧ d' + closings front = d + openings front := by
  induction front generalizing d subs with
  | nil => exact ⟨d, subs, h, rfl⟩
  | cons w front ih =>
    cases h with
    | cons hopen hinnermost hrest =>
      obtain ⟨d', subs', hkeeps, hcount⟩ := ih hrest
      have hstep := depthPast_add hopen
      refine ⟨d', subs', hkeeps, ?_⟩
      rw [openings_cons, closings_cons]
      omega

/-- The kind of what a part of a template closes and opens. -/
theorem brackets_template (hw : w.1 = .template) :
    (closedBy w = none ∨ closedBy w = some .substitution) ∧
      (openedBy w = none ∨ openedBy w = some .substitution) := by
  obtain ⟨kind, text⟩ := w
  obtain rfl : kind = .template := hw
  rw [closedBy_template, openedBy_template]
  constructor
  · split
    · exact Or.inr rfl
    · exact Or.inl rfl
  · split
    · exact Or.inr rfl
    · exact Or.inl rfl

/-- A part of a template nests among substitutions, if one is open wherever it closes one. -/
theorem nest_substitutions (d : Nat) (hw : w.1 = .template)
    (hopen : closedBy w = some .substitution → subs ≠ []) :
    nest (subs.map fun _ => .substitution) w =
      some ((substitutionsPast d subs w).map fun _ => .substitution) := by
  obtain ⟨hclosed | hclosed, hopened⟩ := brackets_template hw
  · rw [substitutionsPast, nest.eq_def, hclosed]
    rcases hopened with hopened | hopened <;> simp [hopened]
  · obtain ⟨n, outer, rfl⟩ := List.exists_cons_of_ne_nil (hopen hclosed)
    rw [substitutionsPast, nest.eq_def, hclosed]
    rcases hopened with hopened | hopened <;> simp [hopened]

theorem nesting_templates_cons (d : Nat) (words : List Word)
    (hopen : closedBy w = some .substitution → subs ≠ []) :
    nesting (subs.map fun _ => .substitution) (templates (w :: words)) =
      nesting ((substitutionsPast d subs w).map fun _ => .substitution) (templates words) := by
  by_cases hw : w.1 = .template
  · have hcons : templates (w :: words) = w :: templates words :=
      List.filter_cons_of_pos (beq_iff_eq.2 hw)
    rw [hcons, nesting_cons, nest_substitutions d hw hopen, Option.bind_some]
  · have hcons : templates (w :: words) = templates words :=
      List.filter_cons_of_neg fun htemplate => hw (beq_iff_eq.1 htemplate)
    rw [hcons, substitutionsPast_of_ne hw]

/-- The parts of templates in words that the scanner lets pass close all substitutions that are
open. -/
theorem Keeps.templates_nest (h : Keeps d subs words) :
    nesting (subs.map fun _ => .substitution) (templates words) = some [] := by
  induction h with
  | nil d => rfl
  | @cons d subs w words hopen hinnermost hrest ih =>
    have hne : closedBy w = some .substitution → subs ≠ [] := fun hcloses =>
      List.ne_nil_of_mem (List.mem_of_head? (hinnermost hcloses))
    rw [nesting_templates_cons d words hne]
    exact ih

/-- Substitutions that are open further out make no difference, unless a word closes one of them. -/
theorem substitutionsPast_append (outer : List Nat)
    (h : closedBy w = some .substitution → inner ≠ []) :
    substitutionsPast d (inner ++ outer) w = substitutionsPast d inner w ++ outer := by
  rw [substitutionsPast, substitutionsPast, List.append_assoc]
  by_cases hcloses : closedBy w = some .substitution
  · rw [if_pos hcloses, if_pos hcloses, List.tail_append_of_ne_nil (h hcloses)]
  · rw [if_neg hcloses, if_neg hcloses]

/-- A substitution that is open is closed where the depth is the same as when it was opened, after
those that were opened in it. -/
theorem Keeps.closes (inner : List Nat) (h : Keeps d (inner ++ n :: outer) words) :
    ∃ body w rest, words = body ++ w :: rest ∧ closedBy w = some .substitution ∧
      nesting (inner.map fun _ => .substitution) (templates body) = some [] ∧
      d + openings body = n + closings body := by
  generalize hsubs : inner ++ n :: outer = subs at h
  induction h generalizing inner with
  | nil d => simp at hsubs
  | @cons d subs w words hopen hinnermost hrest ih =>
    subst hsubs
    by_cases hlast : closedBy w = some .substitution ∧ inner = []
    · obtain ⟨hcloses, rfl⟩ := hlast
      obtain rfl : n = d := Option.some.inj (hinnermost hcloses)
      exact ⟨[], w, words, rfl, hcloses, rfl, rfl⟩
    · have hne : closedBy w = some .substitution → inner ≠ [] := fun hcloses hnil =>
        hlast ⟨hcloses, hnil⟩
      obtain ⟨body, w', rest, rfl, hcloses, hnest, hcount⟩ :=
        ih _ (substitutionsPast_append (n :: outer) hne).symm
      have hstep := depthPast_add hopen
      refine ⟨w :: body, w', rest, rfl, hcloses, ?_, ?_⟩
      · rw [nesting_templates_cons d body hne, hnest]
      · rw [openings_cons, closings_cons]
        omega

/-- What the scanner lets pass from the beginning on matches. -/
theorem Keeps.matched (h : Keeps 0 [] words) : Matched words where
  closer_open front w rest hsplit hcloses := by
    obtain ⟨d, subs, hkeeps, hcount⟩ := Keeps.past (hsplit ▸ h)
    cases hkeeps with
    | cons hopen hinnermost hrest =>
      have := hopen hcloses
      omega
  templates_nest := h.templates_nest
  substitution_closed front w rest hsplit hopens := by
    obtain ⟨d, subs, hkeeps, -⟩ := Keeps.past (hsplit ▸ h)
    cases hkeeps with
    | cons hopen hinnermost hrest =>
      rw [substitutionsPast, if_pos hopens] at hrest
      obtain ⟨body, w', rest', hrest, hcloses, hnest, hcount⟩ := Keeps.closes [] hrest
      exact ⟨body, w', rest', hrest, hcloses, hnest, by omega⟩

/-- In every script that is scanned to its end, something is open in front of each bracket that
closes, and all substitutions are closed, in the order of nesting. -/
theorem matched_of_scan {source : String} {tokens : List Token} (h : scan source = .ok tokens) :
    Matched (tokens.map Token.word) := by
  obtain ⟨found, rfl, hreads⟩ := Scanner.reads_of_run h
  exact (keeps_of_reads hreads fun n hn => absurd hn List.not_mem_nil).matched

/-- A template in a template, with brackets that do not match in kind. -/
def nestedSource : String := "a(\x60x$\x7b (\x60$\x7bb\x7d\x60] \x7dy$\x7b\x7d\x60\n"

theorem matched_nestedSource : ∃ tokens, scan nestedSource = .ok tokens ∧ tokens.length = 10 ∧
    Matched (tokens.map Token.word) := by
  obtain ⟨tokens, htokens, hlength⟩ : ∃ tokens, scan nestedSource = .ok tokens ∧
      tokens.length = 10 := exists_ok_of_map_toOption (by decide +kernel)
  exact ⟨tokens, htokens, hlength, matched_of_scan htokens⟩

/-- Kinds are not compared, and a script may end with brackets open. Such a module is transformed,
and its entry in the table of a bundle does not nest. -/
theorem unmatched_brackets :
    (∃ tokens, scan "([)]" = .ok tokens ∧ nesting [] (tokens.map Token.word) = none) ∧
    (∃ tokens, scan "f(\x7b" = .ok tokens ∧
      nesting [] (tokens.map Token.word) = some [.brace, .parenthesis]) ∧
    (∃ body, transformScript "f(\x7b" = .ok body ∧ body.code = "f(\x7b") ∧
    ∃ tokens, scan (tableEntry true ⟨⟨"./m.js"⟩, "f(\x7b", []⟩) = .ok tokens ∧
      nesting [] (tokens.map Token.word) = none :=
  ⟨exists_ok_of_map_toOption (by decide +kernel), exists_ok_of_map_toOption (by decide +kernel),
    exists_ok_of_map_toOption (by decide +kernel), exists_ok_of_map_toOption (by decide +kernel)⟩

end ModuleBundler.Script
