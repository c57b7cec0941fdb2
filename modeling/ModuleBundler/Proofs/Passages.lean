import ModuleBundler.Proofs.Depths
import ModuleBundler.Proofs.Places

/-
  Tokens that are passed over. Where none of the tokens behind a statement begins another one, reading
  goes on behind them (`statementsAfter_append`), and they stay (`Statement.StandsAt.not_isEdited`). No
  statement begins between brackets (`isPlain_of_enclosed`).
-/

namespace ModuleBundler.Script

variable {d : Nat} {first t opener closer : Token} {c' : Cursor} {s : Statement}
  {found : List Statement} {ts us tokens front rest run run' behind behind' : List Token}
  {previous? : Option Token}

/-! ## Tokens that begin no statement -/

/-- Whether none of the tokens `run` begins a statement, between a token and others behind. -/
def IsPlain (previous? : Option Token) (run behind : List Token) : Prop :=
  ∀ before t after, run = before ++ t :: after →
    ¬ StartsStatement (before.getLast?.or previous?) t (after ++ behind)

theorem isPlain_cons : IsPlain previous? (t :: run) behind ↔
    ¬ StartsStatement previous? t (run ++ behind) ∧ IsPlain (some t) run behind := by
  constructor
  · refine fun h => ⟨h [] t run rfl, fun before u after hrun => ?_⟩
    have hstart := h (t :: before) u after (by rw [hrun]; rfl)
    rwa [List.getLast?_cons, Option.some_or, ← Option.or_some] at hstart
  · rintro ⟨hfirst, hrest⟩ before u after hrun
    cases before with
    | nil =>
      obtain ⟨rfl, rfl⟩ := List.cons_eq_cons.1 hrun
      exact hfirst
    | cons v before =>
      obtain ⟨rfl, rfl⟩ := List.cons_eq_cons.1 hrun
      rw [List.getLast?_cons, Option.some_or, ← Option.or_some]
      exact hrest before u after rfl

theorem Token.word_of_isName {name : String} (h : t.isName name = true) : t.word = (.name, name) := by
  obtain ⟨hkind, htext⟩ := Bool.and_eq_true_iff.1 h
  exact Prod.ext (beq_iff_eq.1 hkind) (beq_iff_eq.1 htext)

/-- Tokens of which none is a word `import` or `export` outside of brackets. -/
theorem isPlain_of_words
    (h : ∀ t ∈ run, t.depth = 0 → t.word ∉ [(.name, "import"), (.name, "export")]) :
    IsPlain previous? run behind := by
  rintro before t after rfl hstarts
  refine h t (by simp) hstarts.isWord.2.1 ?_
  rcases hstarts with hstarts | hstarts
  · simp [Token.word_of_isName (isName_of_startsImport hstarts)]
  · simp [Token.word_of_isName (isName_of_startsExport hstarts)]

theorem IsPlain.append (h : IsPlain previous? run (run' ++ behind))
    (h' : IsPlain (run.getLast?.or previous?) run' behind) :
    IsPlain previous? (run ++ run') behind := by
  induction run generalizing previous? with
  | nil => exact h'
  | cons t run ih =>
    rw [isPlain_cons] at h
    rw [List.cons_append, isPlain_cons, List.append_assoc]
    rw [List.getLast?_cons, Option.some_or, ← Option.or_some] at h'
    exact ⟨h.1, ih h.2 h'⟩

/-- Tokens of which none begins a statement are passed over. -/
theorem statementsAfter_append (h : IsPlain previous? run behind) :
    statementsAfter previous? (run ++ behind) =
      statementsAfter (run.getLast?.or previous?) behind := by
  induction run generalizing previous? with
  | nil => rfl
  | cons t run ih =>
    obtain ⟨hfirst, hrest⟩ := isPlain_cons.1 h
    obtain ⟨himport, hexport⟩ := not_or.1 hfirst
    rw [List.cons_append, statementsAfter, if_neg himport, if_neg hexport, ih hrest,
      List.getLast?_cons, Option.some_or, ← Option.or_some]

/-- Only the first of the tokens behind matters. -/
theorem IsPlain.of_head (h : IsPlain previous? run behind) (hhead : behind.head? = behind'.head?) :
    IsPlain previous? run behind' := by
  intro before t after hrun hstarts
  have hnext : (after ++ behind').head? = (after ++ behind).head? := by
    rw [List.head?_append, List.head?_append, hhead]
  rw [StartsStatement, startsImport, hnext] at hstarts
  exact h before t after hrun hstarts

theorem Placed.exists_of_suffix (h : Placed d ts) (hus : us <:+ ts) :
    ∃ d', Placed d' us := by
  obtain ⟨front, rfl⟩ := hus
  exact ⟨_, (placed_append.1 h).2⟩

/-- No statement begins in brackets, nor with one of them. -/
theorem isPlain_of_enclosed {bracket : Bracket} (hpair : IsPair opener.word closer.word bracket)
    (h : Placed d (opener :: (us ++ closer :: rest))) (hus : IsBalanced (us.map Token.word)) :
    IsPlain previous? (opener :: (us ++ [closer])) behind := by
  obtain ⟨-, -, hinside, -, -⟩ := h.enclosed hpair hus
  have hmark {w : Word} (hw : w.1 = .punctuator) : w ∉ [(.name, "import"), (.name, "export")] := by
    rintro hmem
    rcases List.mem_pair.1 hmem with rfl | rfl <;> cases hw
  refine isPlain_of_words fun t ht hdepth => ?_
  rcases List.mem_cons.1 ht with rfl | ht
  · exact hmark hpair.marks.1
  · rcases List.mem_append.1 ht with ht | ht
    · have hdeep := hinside.le_of_isBalanced hus t ht
      omega
    · obtain rfl := List.mem_singleton.1 ht
      exact hmark hpair.marks.2

/-! ## Tokens behind a statement -/

/-- A statement of a script stands at a token: it is read from there up to a cursor, and the
statements behind that are the ones after it. -/
structure Statement.StandsAt (s : Statement) (tokens : List Token) (found : List Statement)
    (front : List Token) (first : Token) (ts : List Token) (c' : Cursor) : Prop where
  ordered : tokens.Pairwise fun t u => t.stop ≤ u.start.offset
  finds : statements tokens = .ok found
  split : tokens = front ++ first :: ts
  read : s.ReadAt first ts c'
  among : ∃ before after, found = before ++ s :: after ∧
    statementsAfter (some c'.last) c'.rest = .ok after

/-- Every statement of a script stands at a token. -/
theorem exists_standsAt {source : String} (hscan : scan source = .ok tokens)
    (hfound : statements tokens = .ok found) (hs : s ∈ found) :
    ∃ front first ts c', s.StandsAt tokens found front first ts c' := by
  obtain ⟨before, after, hsplit⟩ := List.append_of_mem hs
  obtain ⟨front, first, ts, c', hplace, hread, hafter⟩ := exists_place_of_mem hfound hsplit
  exact ⟨front, first, ts, c', (laidOut_of_scan hscan).ordered, hfound, hplace, hread,
    before, after, hsplit, hafter⟩

/-- A statement that begins at the offset of a token with a length stands there. -/
theorem standsAt_of_start {source : String} (hscan : scan source = .ok (front ++ first :: ts))
    (hfound : statements (front ++ first :: ts) = .ok found) (hs : s ∈ found)
    (hwidth : first.start.offset < first.stop) (hstart : s.start = first.start.offset) :
    ∃ c', s.StandsAt (front ++ first :: ts) found front first ts c' := by
  have hordered := (laidOut_of_scan hscan).ordered
  obtain ⟨before, after, c', hsplit, hread, hafter⟩ :=
    exists_place_of_start hordered hfound hs rfl hwidth hstart
  exact ⟨c', hordered, hfound, rfl, hread, before, after, hsplit, hafter⟩

namespace Statement.StandsAt

/-- The tokens of a statement, and those behind it, lie in order. -/
theorem own_ordered (h : s.StandsAt tokens found front first ts c') :
    (first :: ts).Pairwise fun t u => t.stop ≤ u.start.offset :=
  h.ordered.sublist (h.split ▸ List.sublist_append_right front (first :: ts))

/-- Every edit lies in front of the tokens behind a statement, up to the next one, or behind them. -/
theorem sides (h : s.StandsAt tokens found front first ts c') (hrest : c'.rest = run ++ behind)
    (hplain : IsPlain (some c'.last) run behind) :
    ∀ e ∈ found.flatMap Statement.edits,
      (∀ t ∈ run, e.stop ≤ t.start.offset) ∨ ∀ t ∈ run, t.stop ≤ e.start := by
  obtain ⟨before, after, rfl, hafter⟩ := h.among
  have hedits := (among_of_statementsAfter h.ordered h.finds).ordered
  have hreaches := h.read.reaches
  have hback := h.own_ordered.sublist (hreaches.rest.trans (List.suffix_cons first ts)).sublist
  have hmem {t : Token} (ht : t ∈ run) : t ∈ c'.rest := hrest ▸ List.mem_append_left _ ht
  obtain ⟨e₀, he₀, hbegin⟩ := h.read.spans.exists_start
  rw [hrest, statementsAfter_append hplain] at hafter
  rw [hrest] at hback
  have hamong := among_of_statementsAfter (List.pairwise_append.1 hback).2.1 hafter
  rw [List.flatMap_append, List.flatMap_cons] at hedits ⊢
  intro e he
  rcases List.mem_append.1 he with he | he
  · refine Or.inl fun t ht => ?_
    have hle := (List.pairwise_append.1 hedits).2.2 e he e₀ (List.mem_append_left _ he₀)
    have hstart := start_le_start h.own_ordered
      (List.mem_cons_of_mem _ (hreaches.rest.mem (hmem ht)))
    omega
  · rcases List.mem_append.1 he with he | he
    · exact Or.inl fun t ht => (h.read.spans.among hreaches h.own_ordered).2 e he t (hmem ht)
    · refine Or.inr fun t ht => ?_
      obtain ⟨u, hu, hborder⟩ := (hamong.borders e he).1
      have hle := (List.pairwise_append.1 hback).2.2 t ht u hu
      have := u.start_le_stop
      omega

/-- The tokens behind a statement stay, up to the next statement. -/
theorem not_isEdited (h : s.StandsAt tokens found front first ts c')
    (hrest : c'.rest = run ++ behind) (hplain : IsPlain (some c'.last) run behind) (ht : t ∈ run)
    (hwidth : t.start.offset < t.stop) : ¬ IsEdited (found.flatMap Statement.edits) t := by
  rintro ⟨e, he, hlow, hhigh⟩
  rcases h.sides hrest hplain e he with hside | hside
  · have := hside t ht
    omega
  · have := hside t ht
    omega

end Statement.StandsAt

end ModuleBundler.Script
