import Mathlib.Data.List.Nodup
import ModuleBundler.Proofs.Depths

/-
  Which brackets are partners. A stack tells it: an opening bracket is put onto it with its place,
  and a closing one takes off the innermost, which must be of its kind (`Pairing.take`). The tokens
  of a script do not have the stack, only their depths. From an opening bracket its partner is
  looked for by depth and text alone, and what is found is what the stack finds, although parts of
  templates stand at other depths than brackets; nothing is found just if the bracket stays open
  (`findsPartner_of_scan`).
-/

namespace ModuleBundler.Script

variable {n i j : Nat} {w : Word} {words : List Word} {bracket : Bracket}
  {inner outer opened : List (Nat × Bracket)} {pairs : List (Nat × Nat)}

/-! ## The stack -/

theorem nest_of_closedBy_none {stack : List Bracket} (h : closedBy w = none) :
    nest stack w = some ((openedBy w).toList ++ stack) := by
  rw [nest.eq_def, h]

theorem nest_of_closedBy {stack : List Bracket} (h : closedBy w = some bracket) :
    nest (bracket :: stack) w = some ((openedBy w).toList ++ stack) := by
  rw [nest.eq_def, h]
  exact if_pos rfl

/-- The bracket that a word opens, with the place of the word. -/
def opensAt (place : Nat) (w : Word) : List (Nat × Bracket) :=
  (openedBy w).toList.map fun bracket => (place, bracket)

theorem map_fst_opensAt (n : Nat) (w : Word) :
    (opensAt n w).map Prod.fst = (openedBy w).toList.map fun _ => n := List.map_map

theorem map_snd_opensAt (n : Nat) (w : Word) :
    (opensAt n w).map Prod.snd = (openedBy w).toList := by
  rw [opensAt, List.map_map]
  exact List.map_id _

/-- The brackets that are open, innermost first, with their places, and the places of the pairs
that were found. -/
structure Pairing where
  opened : List (Nat × Bracket) := []
  pairs : List (Nat × Nat) := []

namespace Pairing

variable {p p' : Pairing}

/-- Takes in the word at a place: it closes the innermost bracket, which must be of its kind, before
it opens one. -/
def take (p : Pairing) (place : Nat) (w : Word) : Option Pairing :=
  match closedBy w, p.opened with
  | none, opened => some { p with opened := opensAt place w ++ opened }
  | some bracket, (i, top) :: outer =>
    if bracket = top then some ⟨opensAt place w ++ outer, p.pairs ++ [(i, place)]⟩ else none
  | some _, [] => none

/-- Takes in words, the first of them at a place. -/
def takeAll (p : Pairing) (place : Nat) : List Word → Option Pairing
  | [] => some p
  | w :: words => (p.take place w).bind fun p => p.takeAll (place + 1) words

/-- What is open or was closed, by place. -/
def places (p : Pairing) : List Nat := p.opened.map Prod.fst ++ p.pairs.map Prod.fst

theorem take_cases (h : p.take n w = some p') :
    (closedBy w = none ∧ p'.opened = opensAt n w ++ p.opened ∧ p'.pairs = p.pairs) ∨
    ∃ i top outer, closedBy w = some top ∧ p.opened = (i, top) :: outer ∧
      p'.opened = opensAt n w ++ outer ∧ p'.pairs = p.pairs ++ [(i, n)] := by
  unfold take at h
  split at h
  · next hclosed =>
    cases h
    exact Or.inl ⟨hclosed, rfl, rfl⟩
  · next bracket i top outer hclosed hopened =>
    split at h
    · next htop =>
      cases h
      exact Or.inr ⟨i, top, outer, htop ▸ hclosed, hopened, rfl, rfl⟩
    · cases h
  · cases h

/-- Without the places, the stack is that of the brackets. -/
theorem nest_of_take (h : p.take n w = some p') :
    nest (p.opened.map Prod.snd) w = some (p'.opened.map Prod.snd) := by
  rcases take_cases h with ⟨hclosed, hopened, -⟩ | ⟨i, top, outer, hclosed, hopened, hopened', -⟩
  · rw [nest_of_closedBy_none hclosed, hopened, List.map_append, map_snd_opensAt]
  · rw [hopened, List.map_cons, nest_of_closedBy hclosed, hopened', List.map_append,
      map_snd_opensAt]

theorem takeAll_cons (h : p.takeAll n (w :: words) = some p') :
    ∃ q, p.take n w = some q ∧ q.takeAll (n + 1) words = some p' :=
  Option.bind_eq_some_iff.1 h

theorem takeAll_append {front : List Word} (h : p.takeAll n (front ++ words) = some p') :
    ∃ q, p.takeAll n front = some q ∧ q.takeAll (n + front.length) words = some p' := by
  induction front generalizing p n with
  | nil => exact ⟨p, rfl, h⟩
  | cons w front ih =>
    obtain ⟨q, htake, hrest⟩ := takeAll_cons h
    obtain ⟨q', hfront, hwords⟩ := ih hrest
    refine ⟨q', ?_, ?_⟩
    · rw [takeAll, htake]
      exact hfront
    · rwa [List.length_cons, Nat.add_comm front.length, ← Nat.add_assoc]

theorem nesting_of_takeAll (h : p.takeAll n words = some p') :
    nesting (p.opened.map Prod.snd) words = some (p'.opened.map Prod.snd) := by
  induction words generalizing p n with
  | nil =>
    cases h
    rfl
  | cons w words ih =>
    obtain ⟨q, htake, hrest⟩ := takeAll_cons h
    rw [nesting_cons, nest_of_take htake, Option.bind_some, ih hrest]

/-- Where the brackets nest, the stack takes in all words. -/
theorem exists_takeAll {stack : List Bracket} (n : Nat)
    (h : nesting (p.opened.map Prod.snd) words = some stack) :
    ∃ p', p.takeAll n words = some p' := by
  induction words generalizing p n with
  | nil => exact ⟨p, rfl⟩
  | cons w words ih =>
    rw [nesting_cons, Option.bind_eq_some_iff] at h
    obtain ⟨stack', hword, hwords⟩ := h
    obtain ⟨q, hq⟩ : ∃ q, p.take n w = some q := by
      rcases nest_cases hword with ⟨hclosed, -⟩ | ⟨bracket, outer, hclosed, hstack, -⟩
      · exact ⟨_, by rw [take.eq_def, hclosed]⟩
      · obtain ⟨⟨i, top⟩, opened, hopened, rfl, -⟩ := List.map_eq_cons_iff.1 hstack
        rw [take.eq_def, hclosed, hopened]
        exact ⟨_, if_pos rfl⟩
    rw [← Option.some.inj ((nest_of_take hq).symm.trans hword)] at hwords
    obtain ⟨p', hp'⟩ := ih (n + 1) hwords
    exact ⟨p', by rw [takeAll, hq]; exact hp'⟩

/-- What was found stays. -/
theorem pairs_subset (h : p.takeAll n words = some p') : p.pairs ⊆ p'.pairs := by
  induction words generalizing p n with
  | nil =>
    cases h
    exact List.Subset.refl _
  | cons w words ih =>
    obtain ⟨q, htake, hrest⟩ := takeAll_cons h
    refine List.Subset.trans ?_ (ih hrest)
    rcases take_cases htake with ⟨-, -, hpairs⟩ | ⟨i, top, outer, -, -, -, hpairs⟩
    · exact hpairs ▸ List.Subset.refl _
    · exact hpairs ▸ List.subset_append_left _ _

/-! ## One partner each -/

/-- Whether every place was met once, and before a place. -/
structure IsPast (p : Pairing) (n : Nat) : Prop where
  before : ∀ i ∈ p.places, i < n
  nodup : p.places.Nodup

/-- A word adds its own place, if it opens a bracket. -/
theorem places_take (h : p.take n w = some p') :
    p'.places.Perm ((openedBy w).toList.map (fun _ => n) ++ p.places) := by
  unfold places
  rcases take_cases h with ⟨-, hopened, hpairs⟩ | ⟨i, top, outer, -, hopened, hopened', hpairs⟩
  · rw [hopened, hpairs, List.map_append, map_fst_opensAt, List.append_assoc]
  · rw [hopened, hopened', hpairs, List.map_append, List.map_append, map_fst_opensAt,
      List.append_assoc, ← List.append_assoc (outer.map Prod.fst)]
    exact List.Perm.append_left _ (List.perm_append_singleton i _)

theorem IsPast.take (hp : p.IsPast n) (h : p.take n w = some p') : p'.IsPast (n + 1) := by
  have hperm := places_take h
  cases hopened : openedBy w with
  | none =>
    rw [hopened] at hperm
    exact ⟨fun i hi => Nat.lt_succ_of_lt (hp.before i (hperm.mem_iff.1 hi)),
      hperm.nodup_iff.2 hp.nodup⟩
  | some bracket =>
    rw [hopened] at hperm
    refine ⟨fun i hi => ?_, hperm.nodup_iff.2 (List.nodup_cons.2 ⟨fun hn => ?_, hp.nodup⟩)⟩
    · rcases List.mem_cons.1 (hperm.mem_iff.1 hi) with rfl | hi
      · exact Nat.lt_succ_self _
      · exact Nat.lt_succ_of_lt (hp.before i hi)
    · exact Nat.lt_irrefl n (hp.before n hn)

theorem IsPast.takeAll (hp : p.IsPast n) (h : p.takeAll n words = some p') :
    p'.places.Nodup := by
  induction words generalizing p n with
  | nil =>
    cases h
    exact hp.nodup
  | cons w words ih =>
    obtain ⟨q, htake, hrest⟩ := takeAll_cons h
    exact ih (hp.take htake) hrest

theorem isPast_empty : ({} : Pairing).IsPast 0 := ⟨by rintro i ⟨⟩, List.nodup_nil⟩

/-! ## From an opening bracket on -/

/-- An open bracket is closed behind words that nest, or stays open. -/
theorem closes_or_stays (inner : List (Nat × Bracket))
    (h : takeAll ⟨inner ++ (i, bracket) :: outer, pairs⟩ n words = some p) :
    (∃ body w after, words = body ++ w :: after ∧
      nesting (inner.map Prod.snd) body = some [] ∧ closedBy w = some bracket ∧
      (i, n + body.length) ∈ p.pairs) ∨
    ((∃ stack, nesting (inner.map Prod.snd) words = some stack) ∧ (i, bracket) ∈ p.opened) := by
  induction words generalizing inner pairs n with
  | nil =>
    cases h
    exact Or.inr ⟨⟨_, rfl⟩, List.mem_append_right _ List.mem_cons_self⟩
  | cons w words ih =>
    obtain ⟨⟨opened', pairs'⟩, htake, hrest⟩ := takeAll_cons h
    -- The word closes nothing, the bracket itself, or one that was opened inside it.
    obtain ⟨inner', rfl, hnest⟩ | hcloses : (∃ inner', opened' = inner' ++ (i, bracket) :: outer ∧
        nest (inner.map Prod.snd) w = some (inner'.map Prod.snd)) ∨
          (closedBy w = some bracket ∧ inner = [] ∧ pairs' = pairs ++ [(i, n)]) := by
      rcases take_cases htake with ⟨hclosed, rfl, -⟩ | ⟨k, top, above, hclosed, hstack, rfl, rfl⟩
      · refine Or.inl ⟨_, (List.append_assoc _ _ _).symm, ?_⟩
        rw [nest_of_closedBy_none hclosed, List.map_append, map_snd_opensAt]
      · cases inner with
        | nil =>
          obtain ⟨hpair, -⟩ := List.cons_eq_cons.1 hstack
          obtain ⟨rfl, rfl⟩ := Prod.mk.inj hpair
          exact Or.inr ⟨hclosed, rfl, rfl⟩
        | cons first inner =>
          obtain ⟨rfl, rfl⟩ := List.cons_eq_cons.1 hstack
          refine Or.inl ⟨_, (List.append_assoc _ _ _).symm, ?_⟩
          rw [List.map_cons, nest_of_closedBy hclosed, List.map_append, map_snd_opensAt]
    · rcases ih inner' hrest with ⟨body, w', after, rfl, hbody, hclosed, hpair⟩ |
        ⟨⟨stack, hwords⟩, hopen⟩
      · refine Or.inl ⟨w :: body, w', after, rfl, ?_, hclosed, ?_⟩
        · rw [nesting_cons, hnest, Option.bind_some, hbody]
        · rwa [List.length_cons, Nat.add_comm body.length, ← Nat.add_assoc]
      · refine Or.inr ⟨⟨stack, ?_⟩, hopen⟩
        rw [nesting_cons, hnest, Option.bind_some, hwords]
    · obtain ⟨hclosed, rfl, rfl⟩ := hcloses
      refine Or.inl ⟨[], w, words, rfl, rfl, hclosed, pairs_subset hrest ?_⟩
      exact List.mem_append_right _ (List.mem_singleton.2 rfl)

end Pairing

/-- The pairs of brackets among words, and the brackets that stay open. There is none where a
bracket is closed that is not the innermost. -/
def pairing (words : List Word) : Option Pairing := Pairing.takeAll {} 0 words

variable {p : Pairing}

/-- Words have a pairing if their brackets nest, and what stays open is the same. -/
theorem exists_pairing {stack : List Bracket} (h : nesting [] words = some stack) :
    ∃ p, pairing words = some p ∧ p.opened.map Prod.snd = stack := by
  obtain ⟨p, hp⟩ := Pairing.exists_takeAll (p := {}) 0 h
  exact ⟨p, hp, Option.some.inj ((Pairing.nesting_of_takeAll hp).symm.trans h)⟩

theorem not_opened_of_pair (h : pairing words = some p) (hpair : (i, j) ∈ p.pairs) :
    (i, bracket) ∉ p.opened := by
  intro hopened
  have hnodup := Pairing.isPast_empty.takeAll h
  exact (List.disjoint_of_nodup_append hnodup) (List.mem_map_of_mem hopened)
    (List.mem_map_of_mem hpair)

theorem pair_unique {k : Nat} (h : pairing words = some p) (hj : (i, j) ∈ p.pairs)
    (hk : (i, k) ∈ p.pairs) : j = k := by
  have hnodup := (List.nodup_append.1 (Pairing.isPast_empty.takeAll h)).2.1
  exact congrArg Prod.snd (List.inj_on_of_nodup_map hnodup hj hk rfl)

/-! ## What is found -/

variable {d : Nat} {opener closer : Token} {front rest tokens : List Token}

/-- The words that open brackets outside templates. -/
def openers : List Word := [mark "\x7b", mark "[", mark "("]

theorem bracket_of_mem_openers (h : opener.word ∈ openers) :
    opener.kind = .punctuator ∧ ∃ bracket, closedBy opener.word = none ∧
      openedBy opener.word = some bracket ∧ bracket ≠ .substitution := by
  have hmark : opener.word = mark "\x7b" ∨ opener.word = mark "[" ∨ opener.word = mark "(" := by
    simpa [openers] using h
  obtain ⟨bracket, hclosed, hopened, hne, -⟩ := exists_bracket_of_opener hmark
  refine ⟨?_, bracket, hclosed, hopened, hne⟩
  rcases hmark with hword | hword | hword <;> exact (Prod.mk.inj hword).1

theorem isPair_of_closedBy (hkind : opener.kind = .punctuator)
    (hclosed : closedBy opener.word = none) (hopened : openedBy opener.word = some bracket)
    (hne : bracket ≠ .substitution) (hcloses : closedBy closer.word = some bracket) :
    IsPair opener.word closer.word bracket := by
  have hcloser := eq_of_closedBy hcloses hne
  refine ⟨hclosed, hopened, hcloses, ?_, hkind, ?_⟩
  · rw [hcloser]
    cases bracket <;> decide
  · rw [hcloser]

/-- From an opening bracket its partner is found where the stack has it, and nothing where the stack
keeps the bracket. -/
theorem partner_cases (hplaced : Placed d (front ++ opener :: rest))
    (hpairing : pairing ((front ++ opener :: rest).map Token.word) = some p)
    (hopener : opener.word ∈ openers) :
    (∃ inside closer after, rest = inside ++ closer :: after ∧
      matchingClose opener rest = .ok (inside, ⟨closer, after⟩) ∧
      (front.length, front.length + 1 + inside.length) ∈ p.pairs) ∨
    (matchingClose opener rest =
        .error (opener.start.fault (.missingCloser (closerOf opener.text))) ∧
      ∃ bracket, (front.length, bracket) ∈ p.opened) := by
  obtain ⟨-, hplaced⟩ := placed_append.1 hplaced
  generalize (front.map Token.word).foldl depthPast d = outside at hplaced
  obtain ⟨hkind, bracket, hclosed, hopened, hne⟩ := bracket_of_mem_openers hopener
  rw [List.map_append, List.map_cons] at hpairing
  obtain ⟨q, -, hrest⟩ := Pairing.takeAll_append hpairing
  obtain ⟨⟨opened, pairs⟩, htake, hrest⟩ := Pairing.takeAll_cons hrest
  obtain ⟨-, hstack, -⟩ | ⟨i, top, outer, hcloses, -⟩ := Pairing.take_cases htake
  · rw [opensAt, hopened, List.length_map, Nat.zero_add] at hstack
    obtain rfl : opened = [] ++ (front.length, bracket) :: q.opened := hstack
    rcases Pairing.closes_or_stays [] hrest with ⟨body, w, after, hwords, hbody, hcloses, hpair⟩ |
      ⟨⟨stack, hnest⟩, hopen⟩
    · obtain ⟨inside, back, rfl, rfl, hback⟩ := List.map_eq_append_iff.1 hwords
      obtain ⟨closer, after, rfl, rfl, rfl⟩ := List.map_eq_cons_iff.1 hback
      refine Or.inl ⟨inside, closer, after, rfl, ?_, ?_⟩
      · exact hplaced.matchingClose_eq (isPair_of_closedBy hkind hclosed hopened hne hcloses) hbody
      · rwa [List.length_map, List.length_map, Nat.zero_add] at hpair
    · refine Or.inr ⟨?_, bracket, hopen⟩
      obtain ⟨hdepth, hinside⟩ := hplaced.opened hkind hclosed hopened
      have hinside : Placed (outside + 1 + ([] : List Bracket).length) rest := hinside
      have hnone : splitAtCloser opener.depth (closerOf opener.text) [] rest = none := by
        refine splitAtCloser_eq_none_iff.2 fun t ht heq => ?_
        have hlt : outside + 1 ≤ t.depth := Placed.le_of_nesting hinside hnest t ht
        omega
      rw [matchingClose, hnone]
  · rw [hclosed] at hcloses
    cases hcloses

/-- Whether the partner of the bracket at a place is found among tokens: the closing bracket with
which the stack pairs it, and none just if it stays on the stack. -/
structure FindsPartner (tokens : List Token) (p : Pairing) (i : Nat) (opener : Token) : Prop where
  found_iff : ∀ j, (∃ closer, tokens[j]? = some closer ∧
      matchingClose opener (tokens.drop (i + 1)) =
        .ok ((tokens.drop (i + 1)).take (j - (i + 1)), ⟨closer, tokens.drop (j + 1)⟩)) ↔
    (i, j) ∈ p.pairs
  missing_iff : (∃ e, matchingClose opener (tokens.drop (i + 1)) = .error e) ↔
    ∃ bracket, (i, bracket) ∈ p.opened
  fault : ∀ e, matchingClose opener (tokens.drop (i + 1)) = .error e →
    e = opener.start.fault (.missingCloser (closerOf opener.text))

theorem eq_of_drop_eq {j k : Nat} (hj : j < tokens.length) (hk : k < tokens.length)
    (h : tokens.drop (j + 1) = tokens.drop (k + 1)) : j = k := by
  have hlength := congrArg List.length h
  rw [List.length_drop, List.length_drop] at hlength
  omega

theorem findsPartner_of_placed (hplaced : Placed 0 tokens)
    (hpairing : pairing (tokens.map Token.word) = some p) (hplace : tokens[i]? = some opener)
    (hopener : opener.word ∈ openers) : FindsPartner tokens p i opener := by
  obtain ⟨hi, hget⟩ := List.getElem?_eq_some_iff.1 hplace
  have hsplit : tokens.take i ++ opener :: tokens.drop (i + 1) = tokens := by
    rw [← hget, List.getElem_cons_drop, List.take_append_drop]
  have hfront : (tokens.take i).length = i := List.length_take_of_le (Nat.le_of_lt hi)
  rw [← hsplit] at hplaced hpairing
  have hcases := partner_cases hplaced hpairing hopener
  rw [hfront] at hcases
  rcases hcases with ⟨inside, closer, after, hrest, hclose, hpair⟩ | ⟨hclose, hopen⟩
  · -- The place of the partner, and what is around it.
    have hbehind : tokens.drop (i + 1 + inside.length) = closer :: after := by
      rw [← List.drop_drop, hrest, List.drop_left]
    have hat : tokens[i + 1 + inside.length]? = some closer := by
      rw [← List.head?_drop, hbehind]
      rfl
    have hafter : tokens.drop (i + 1 + inside.length + 1) = after := by
      rw [← List.drop_drop, hbehind]
      rfl
    have hinside : (tokens.drop (i + 1)).take (i + 1 + inside.length - (i + 1)) = inside := by
      rw [hrest, Nat.add_sub_cancel_left, List.take_left]
    refine ⟨fun j => ⟨?_, fun hj => ?_⟩, ⟨?_, ?_⟩, ?_⟩
    · rintro ⟨closer', hat', hclose'⟩
      rw [hclose, ← hafter] at hclose'
      have hdrop := congrArg Cursor.rest (congrArg Prod.snd (Except.ok.inj hclose'))
      rw [← eq_of_drop_eq (List.getElem?_eq_some_iff.1 hat).1
        (List.getElem?_eq_some_iff.1 hat').1 hdrop]
      exact hpair
    · obtain rfl := pair_unique hpairing hpair hj
      exact ⟨closer, hat, by rw [hinside, hafter, hclose]⟩
    · rintro ⟨e, herror⟩
      rw [hclose] at herror
      cases herror
    · rintro ⟨bracket, hopen⟩
      exact absurd hopen (not_opened_of_pair hpairing hpair)
    · intro e herror
      rw [hclose] at herror
      cases herror
  · refine ⟨fun j => ⟨?_, fun hj => ?_⟩, ⟨fun _ => hopen, fun _ => ⟨_, hclose⟩⟩, fun e herror => ?_⟩
    · rintro ⟨closer, -, hclose'⟩
      rw [hclose] at hclose'
      cases hclose'
    · obtain ⟨bracket, hopen⟩ := hopen
      exact absurd hopen (not_opened_of_pair hpairing hj)
    · exact Except.error.inj (herror.symm.trans hclose)

/-- In every script whose brackets nest, with or without some that stay open, the search by depth
and text finds the partner of each opening bracket. -/
theorem findsPartner_of_scan {source : String} {stack : List Bracket}
    (hscan : scan source = .ok tokens) (hnest : nesting [] (tokens.map Token.word) = some stack) :
    ∃ p, pairing (tokens.map Token.word) = some p ∧ p.opened.map Prod.snd = stack ∧
      ∀ i opener, tokens[i]? = some opener → opener.word ∈ openers →
        FindsPartner tokens p i opener := by
  obtain ⟨p, hpairing, hopened⟩ := exists_pairing hnest
  exact ⟨p, hpairing, hopened, fun i opener hplace hopener =>
    findsPartner_of_placed (placed_of_scan hscan) hpairing hplace hopener⟩

/-- Brackets in a template in brackets, two of which stay open. -/
def unclosedSource : String := "f(\x7b a: [\x60x$\x7b g(\x7b\x7d) \x7dy\x60], b\n"

theorem findsPartner_unclosedSource : ∃ tokens, scan unclosedSource = .ok tokens ∧
    nesting [] (tokens.map Token.word) = some [.brace, .parenthesis] ∧
    ∃ p, pairing (tokens.map Token.word) = some p ∧
      p.opened.map Prod.snd = [.brace, .parenthesis] ∧
      ∀ i opener, tokens[i]? = some opener → opener.word ∈ openers →
        FindsPartner tokens p i opener := by
  obtain ⟨tokens, hscan, hnest⟩ : ∃ tokens, scan unclosedSource = .ok tokens ∧
      nesting [] (tokens.map Token.word) = some [.brace, .parenthesis] :=
    exists_ok_of_map_toOption (by decide +kernel)
  exact ⟨tokens, hscan, hnest, findsPartner_of_scan hscan hnest⟩

end ModuleBundler.Script
