import Mathlib.Data.List.Induction
import ModuleBundler.Proofs.Expressions

/-
  Divisions and regular expressions. The scanner tells them apart by the token in front of the
  slash. Going over an expression from left to right (`Expression.Met`), it finds all divisions of
  the expression and no regular expression just if it sees in front of each of them that its operand
  has ended (`finds_divisions_iff`).
-/

namespace ModuleBundler.Script

variable {s s' : Scanner} {ext text more rest cs : List Char} {c : Char} {n gap : Nat}
  {e i left right : Expression} {tokens : List Token} {field : String} {good regex head : Bool}
  {ends : List Char → Prop}

/-! ## What is written behind an operand -/

/-- Whether a text does not run into the last token of an expression in front of it. -/
def Expression.Ends (e : Expression) (rest : List Char) : Prop :=
  Stops (if e.endsInNumber then continuesNumber else continuesName) rest

/-- Whether the scanner, wherever it expects an expression, goes over this one and the characters of
numbers behind it. -/
def Expression.Met (e : Expression) (ext : List Char) : Prop :=
  ∀ s : Scanner, s.substitutions = [] → s.opensHead = false → s.Meets (e.text ++ ext) e.Ends e.sound
    (s.Past e.divisions (!e.endsOperand) e.endsInHead)

theorem Expression.ends_spaces (e : Expression) (gap : Nat) (hname : continuesName c = false)
    (hnumber : e.takesDot gap = true → continuesNumber c = false) (rest : List Char) :
    e.Ends (spaces gap ++ c :: rest) := by
  intro d hd
  cases gap with
  | zero =>
    obtain rfl := Option.some.inj hd
    split
    · next h => exact hnumber (by rw [Expression.takesDot, h]; rfl)
    · exact hname
  | succ gap =>
    obtain rfl := Option.some.inj hd
    split <;> decide

/-- What is written behind an operand. -/
theorem Expression.Met.trail (h : e.Met []) (gap : Nat) (more : List Char)
    (hsub : s.substitutions = []) (hhead : s.opensHead = false)
    (hends : ∀ rest, e.Ends (spaces gap ++ (more ++ rest)))
    (hmore : ∀ s' : Scanner, s'.substitutions = [] → s'.regexAllowed = !e.endsOperand →
      s'.opensHead = e.endsInHead → s'.Meets more ends good (s'.Past n regex head)) :
    s.Meets (e.text ++ (spaces gap ++ more)) ends (e.sound && good)
      (s.Past (e.divisions + n) regex head) := by
  have hfirst := h s hsub hhead
  rw [List.append_nil] at hfirst
  have hwhole := hfirst.then (fun rest => by rw [List.append_assoc]; exact hends rest)
    fun s₁ h₁ => (s₁.meets_spaces gap h₁.substitutions).then (fun _ => trivial) fun s₂ h₂ =>
      hmore s₂ h₂.substitutions (h₂.regexAllowed.trans h₁.regexAllowed)
        (h₂.opensHead.trans h₁.opensHead)
  rwa [Bool.true_and, Nat.zero_add] at hwhole

/-- What a scanner meets, in other words. -/
theorem Scanner.Meets.of_eq {text' : List Char} {ends' : List Char → Prop}
    {good' regex' head' : Bool} {n' : Nat} (h : s.Meets text ends good (s.Past n regex head))
    (htext : text = text') (hends : ∀ rest, ends' rest → ends rest) (hgood : good = good')
    (hn : n = n') (hregex : regex = regex') (hhead : head = head') :
    s.Meets text' ends' good' (s.Past n' regex' head') := by
  subst htext hgood hn hregex hhead
  exact h.imp (fun _ h => h) hends

/-! ## The forms of expressions -/

theorem met_name (hname : IsNameText field) : (Expression.name field).Met [] := by
  obtain ⟨c, cs, htext, hstarts, hall⟩ := hname
  have hfield : String.ofList (c :: cs) = field := by rw [← htext, String.ofList_toList]
  intro s hsub hhead
  refine (s.meets_name hsub hhead hstarts hall).of_eq ?_ (fun _ h => h) rfl rfl ?_ ?_
  · rw [Expression.text, htext, List.append_nil]
  · rw [hfield, Expression.endsOperand, Bool.not_not]
  · rw [hfield, Expression.endsInHead]

theorem IsUnsigned.append (h : IsUnsigned text) (hext : ext.all continuesNumber = true) :
    IsUnsigned (text ++ ext) := by
  obtain ⟨c, cs, rfl, hfirst, hall⟩ := h
  exact ⟨c, cs ++ ext, rfl, startsNumber_append hfirst ext, by
    rw [List.all_append, hall, hext]
    rfl⟩

theorem met_number (hnumber : IsNumber field.toList) (hext : ext.all continuesNumber = true) :
    (Expression.number field).Met ext := by
  intro s hsub hhead
  rw [Expression.text]
  generalize field.toList = text at hnumber
  cases hnumber with
  | unsigned h => exact s.meets_number hsub (h.append hext)
  | @signed front digits sign hfront hsign hdigits =>
    have hends : ∀ rest, Stops continuesNumber ([sign] ++ (digits ++ ext) ++ rest) := by
      intro rest d hd
      obtain rfl := Option.some.inj hd
      rcases hsign with rfl | rfl <;> decide
    have hwhole := (s.meets_number hsub hfront).then hends fun s₁ h₁ =>
      (s₁.meets_sign h₁.substitutions hsign).then (fun _ => trivial) fun s₂ h₂ =>
        s₂.meets_number h₂.substitutions (hdigits.append hext)
    exact hwhole.of_eq (by simp) (fun _ h => h) rfl rfl rfl rfl

theorem ends_closeMark (e : Expression) (paren : Bool) (rest : List Char) :
    e.Ends (closeMark paren :: rest) := by
  cases paren with
  | true => exact e.ends_spaces 0 (c := ')') (by decide) (fun _ => by decide) rest
  | false => exact e.ends_spaces 0 (c := ']') (by decide) (fun _ => by decide) rest

theorem Expression.Met.bracket (h : i.Met []) (paren : Bool) (hsub : s.substitutions = []) :
    s.Meets (openMark paren :: (i.text ++ [closeMark paren])) (fun _ => True) i.sound
      (s.Past i.divisions (paren && s.opensHead) false) := by
  have hinner : ∀ s' : Scanner, s'.substitutions = [] → s'.opensHead = false →
      s'.Meets i.text i.Ends i.sound (s'.Past i.divisions (!i.endsOperand) i.endsInHead) := by
    intro s' hsub' hhead'
    have hmeets := h s' hsub' hhead'
    rwa [List.append_nil] at hmeets
  exact s.meets_bracket paren hsub hinner (ends_closeMark i paren)

theorem met_group (h : e.Met []) : (Expression.group e).Met [] := by
  intro s hsub hhead
  refine (h.bracket true hsub).of_eq ?_ (fun _ _ => trivial) rfl rfl ?_ rfl
  · rw [List.append_nil]
    rfl
  · rw [hhead]
    rfl

theorem met_index (h : e.Met []) (hi : i.Met []) (gap : Nat) :
    (Expression.index e gap i).Met [] := by
  intro s hsub hhead
  have hwhole := h.trail gap _ hsub hhead
    (fun rest => e.ends_spaces gap (c := '[') (by decide) (fun _ => by decide) _)
    fun s' hsub' _ _ => hi.bracket false hsub'
  refine hwhole.of_eq ?_ (fun _ _ => trivial) rfl rfl rfl rfl
  rw [List.append_nil]
  rfl

theorem met_call (h : e.Met []) (hi : i.Met []) (gap : Nat) : (Expression.call e gap i).Met [] := by
  intro s hsub hhead
  have hargument : ∀ s' : Scanner, s'.substitutions = [] → s'.regexAllowed = !e.endsOperand →
      s'.opensHead = e.endsInHead → s'.Meets (openMark true :: (i.text ++ [closeMark true]))
        (fun _ => True) i.sound (s'.Past i.divisions e.endsInHead false) :=
    fun s' hsub' _ hhead' => (hi.bracket true hsub').of_eq rfl (fun _ h => h) rfl rfl hhead' rfl
  have hwhole := h.trail gap _ hsub hhead
    (fun rest => e.ends_spaces gap (c := '(') (by decide) (fun _ => by decide) _) hargument
  refine hwhole.of_eq ?_ (fun _ _ => trivial) rfl rfl ?_ rfl
  · rw [List.append_nil]
    rfl
  · rw [Expression.endsOperand, Bool.not_not]

theorem met_count (h : e.Met []) (gap : Nat) (counter : Counter) :
    (Expression.count e gap counter).Met [] := by
  have hsign : counter.sign = '+' ∨ counter.sign = '-' := by
    cases counter with
    | increment => exact Or.inl rfl
    | decrement => exact Or.inr rfl
  have hends : ∀ rest, e.Ends (spaces gap ++ counter.sign :: rest) := by
    cases counter with
    | increment => exact e.ends_spaces gap (c := '+') (by decide) fun _ => by decide
    | decrement => exact e.ends_spaces gap (c := '-') (by decide) fun _ => by decide
  intro s hsub hhead
  have hwhole := h.trail gap [counter.sign, counter.sign] hsub hhead
    (fun rest => hends _) fun s' hsub' _ _ =>
      (s'.meets_sign hsub' hsign).then (fun _ => trivial) fun s₁ h₁ =>
        s₁.meets_sign h₁.substitutions hsign
  refine hwhole.of_eq ?_ (fun _ _ => trivial) (Bool.and_true _) rfl rfl rfl
  rw [List.append_nil]
  rfl

/-- A dot with a name behind it, where the dot is not part of a number. -/
theorem met_member (h : e.Met []) (hname : IsNameText field) (hdot : e.takesDot gap = false) :
    (Expression.member e gap field).Met [] := by
  obtain ⟨c, cs, htext, hstarts, hall⟩ := hname
  have hfield : String.ofList (c :: cs) = field := by rw [← htext, String.ofList_toList]
  have hc : c.isDigit = false ∧ c ≠ '.' :=
    ⟨not_isDigit_of_startsName hstarts, ne_of_startsName hstarts rfl⟩
  intro s hsub hhead
  have hends : ∀ rest, e.Ends (spaces gap ++ ('.' :: c :: cs ++ rest)) := fun rest =>
    e.ends_spaces gap (c := '.') (by decide) (fun h => absurd h (Bool.eq_false_iff.1 hdot)) _
  have hwhole := h.trail gap (['.'] ++ c :: cs) hsub hhead hends fun s' hsub' _ _ =>
    (s'.meets_dot hsub').then (fun rest d hd => by obtain rfl := Option.some.inj hd; exact hc)
      fun s₁ h₁ => s₁.meets_name h₁.substitutions h₁.opensHead hstarts hall
  have hnumber : (Expression.member e gap field).endsInNumber = false := by
    rw [Expression.endsInNumber, ← Expression.takesDot, hdot, Bool.false_and]
  refine hwhole.of_eq ?_ (fun rest hrest => ?_) (Bool.and_true _) rfl ?_ ?_
  · rw [List.append_nil, Expression.text, htext]
    rfl
  · rwa [Expression.Ends, hnumber] at hrest
  · rw [hfield, Expression.endsOperand, hdot, Bool.false_or, Bool.not_not]
  · rw [hfield, Expression.endsInHead, hdot]
    rfl

theorem meets_operator (operator : Operator) (hsub : s.substitutions = []) :
    s.Meets [operator.sign, ' '] (fun _ => True) (operator != .divide || !s.regexAllowed)
      (s.Past (if operator = .divide then 1 else 0) true false) := by
  cases operator with
  | plus =>
    exact (s.meets_sign hsub (Or.inl rfl)).then (fun _ => trivial) fun s₁ h₁ =>
      (s₁.meets_spaces 1 h₁.substitutions).of_eq rfl (fun _ h => h) rfl rfl h₁.regexAllowed
        h₁.opensHead
  | divide => exact s.meets_slash hsub

/-- Two operands. Behind the operator another expression is expected. -/
theorem met_binary (h : left.Met []) (h' : right.Met ext) (before after : Nat)
    (operator : Operator) : (Expression.binary left before operator after right).Met ext := by
  have hends : ∀ rest, left.Ends (spaces (before + 1) ++ rest) := by
    intro rest d hd
    obtain rfl := Option.some.inj hd
    split <;> decide
  have hright : ∀ s' : Scanner, s'.substitutions = [] → s'.regexAllowed = !left.endsOperand →
      s'.Meets ([operator.sign, ' '] ++ (spaces after ++ (right.text ++ ext))) right.Ends
        ((operator != .divide || left.endsOperand) && right.sound)
        (s'.Past ((if operator = .divide then 1 else 0) + right.divisions) (!right.endsOperand)
          right.endsInHead) := by
    intro s' hsub' hregex
    have hoperator := meets_operator operator hsub'
    rw [hregex, Bool.not_not] at hoperator
    have hmeets := hoperator.then (fun _ => trivial) fun s₁ h₁ =>
      (s₁.meets_spaces after h₁.substitutions).then (fun _ => trivial) fun s₂ h₂ =>
        h' s₂ h₂.substitutions (h₂.opensHead.trans h₁.opensHead)
    rwa [Bool.true_and, Nat.zero_add] at hmeets
  intro s hsub hhead
  have hwhole := h.trail (before + 1) _ hsub hhead (fun rest => hends _)
    fun s' hsub' hregex _ => hright s' hsub' hregex
  refine hwhole.of_eq ?_ (fun _ h => h) (Bool.and_assoc _ _ _).symm ?_ rfl rfl
  · simp [Expression.text]
  · rw [← Nat.add_assoc]
    rfl

/-! ## Names behind numbers -/

/-- The scanner sees that a number has ended. -/
theorem Expression.ends_of_endsInNumber (h : e.endsInNumber = true) :
    e.endsOperand = true ∧ e.endsInHead = false := by
  induction e with
  | name text => cases h
  | number text => exact ⟨rfl, rfl⟩
  | group e ih => cases h
  | member e gap field ih =>
    rw [endsInNumber, Bool.and_eq_true, ← takesDot] at h
    rw [endsOperand, endsInHead, h.1]
    exact ⟨rfl, rfl⟩
  | index e gap i ih ih' => cases h
  | call e gap argument ih ih' => cases h
  | count e gap counter ih => cases h
  | binary left before operator after right ih ih' => exact ih' h

/-- What a number leaves of a name is no keyword. -/
theorem contains_eq_false_of_head (cs : List Char) (hc : continuesNumber c = false) :
    Scanner.expressionKeywords.contains (String.ofList (c :: cs)) = false ∧
      Expression.headNames.contains (String.ofList (c :: cs)) = false := by
  have hall : (Scanner.expressionKeywords ++ Expression.headNames).all
      (fun word => word.toList.head?.all continuesNumber) = true := by decide
  have hnone : String.ofList (c :: cs) ∉ Scanner.expressionKeywords ++ Expression.headNames := by
    intro hmem
    have hword := List.all_eq_true.1 hall _ hmem
    rw [String.toList_ofList, List.head?_cons, Option.all_some, hc] at hword
    cases hword
  rw [List.mem_append, not_or, ← List.contains_iff_mem, ← List.contains_iff_mem, Bool.not_eq_true,
    Bool.not_eq_true] at hnone
  exact hnone

/-- A name right behind a number, of which the number takes all. -/
theorem met_absorbed (h : e.Met ('.' :: (field.toList ++ ext))) (hdot : e.takesDot gap = true)
    (hall : field.toList.all continuesNumber = true) : (Expression.member e gap field).Met ext := by
  obtain ⟨hnumber, hgap⟩ := Bool.and_eq_true_iff.1 hdot
  obtain rfl := beq_iff_eq.1 hgap
  obtain ⟨hoperand, hhead'⟩ := Expression.ends_of_endsInNumber hnumber
  have hnumber' : (Expression.member e 0 field).endsInNumber = true := by
    rw [Expression.endsInNumber, hnumber, hall]
    rfl
  intro s hsub hhead
  refine (h s hsub hhead).of_eq ?_ (fun rest hrest => ?_) rfl rfl ?_ ?_
  · simp [Expression.text, spaces]
  · rw [Expression.Ends, hnumber'] at hrest
    rwa [Expression.Ends, hnumber]
  · rw [hoperand, Expression.endsOperand, hdot]
    rfl
  · rw [hhead', Expression.endsInHead, hdot]
    rfl

/-- A name right behind a number, of which the number leaves a name. -/
theorem met_left {front : List Char} (h : e.Met ('.' :: front)) (hdot : e.takesDot gap = true)
    (htext : field.toList = front ++ c :: cs) (hc : continuesNumber c = false)
    (hstarts : startsName c = true) (hall : cs.all continuesName = true) :
    (Expression.member e gap field).Met [] := by
  obtain ⟨hnumber, hgap⟩ := Bool.and_eq_true_iff.1 hdot
  obtain rfl := beq_iff_eq.1 hgap
  obtain ⟨hoperand, hhead'⟩ := Expression.ends_of_endsInNumber hnumber
  obtain ⟨hkeyword, hnohead⟩ := contains_eq_false_of_head cs hc
  have hnumber' : (Expression.member e 0 field).endsInNumber = false := by
    rw [Expression.endsInNumber, htext]
    simp [hc]
  have hends : ∀ rest, e.Ends (c :: cs ++ rest) := by
    intro rest d hd
    obtain rfl := Option.some.inj hd
    rwa [hnumber]
  intro s hsub hhead
  have hwhole := (h s hsub hhead).then hends fun s₁ h₁ =>
    s₁.meets_name h₁.substitutions (h₁.opensHead.trans hhead') hstarts hall
  refine hwhole.of_eq ?_ (fun rest hrest => ?_) (Bool.and_true _) rfl ?_ ?_
  · simp [Expression.text, spaces, htext]
  · rwa [Expression.Ends, hnumber'] at hrest
  · rw [hkeyword, Expression.endsOperand, hdot]
    rfl
  · rw [hnohead, Expression.endsInHead, hdot]
    rfl

/-! ## Expressions -/

theorem nil_of_endsInNumber (hnumber : ext ≠ [] → e.endsInNumber = true)
    (h : e.endsInNumber = false) : ext = [] := by
  refine Decidable.byContradiction fun hne => ?_
  rw [hnumber hne] at h
  cases h

/-- A name right behind a number. -/
theorem met_takesDot (h : ∀ ext, ext.all continuesNumber = true → e.Met ext)
    (hname : IsNameText field) (hdot : e.takesDot gap = true)
    (hleft : ∀ c ∈ (field.toList.dropWhile continuesNumber).head?, startsName c = true)
    (hext : ext.all continuesNumber = true)
    (hnumber : ext ≠ [] → (Expression.member e gap field).endsInNumber = true) :
    (Expression.member e gap field).Met ext := by
  have hsplit := List.takeWhile_append_dropWhile (p := continuesNumber) (l := field.toList)
  have hfront : (field.toList.takeWhile continuesNumber).all continuesNumber = true :=
    List.all_takeWhile
  generalize field.toList.takeWhile continuesNumber = front at hsplit hfront
  cases hback : field.toList.dropWhile continuesNumber with
  | nil =>
    rw [hback, List.append_nil] at hsplit
    rw [hsplit] at hfront
    exact met_absorbed (h _ (by rw [List.all_cons, List.all_append, hfront, hext]; rfl)) hdot hfront
  | cons c cs =>
    have hc : continuesNumber c = false := by
      have hstop := List.head?_dropWhile_not continuesNumber field.toList
      rw [hback] at hstop
      simpa using hstop
    rw [hback] at hsplit hleft
    have hnone : (Expression.member e gap field).endsInNumber = false := by
      rw [Expression.endsInNumber, ← hsplit]
      simp [hc]
    obtain rfl := nil_of_endsInNumber hnumber hnone
    have hall : cs.all continuesName = true := by
      obtain ⟨d, ds, htext, -, hds⟩ := hname
      rw [htext] at hsplit
      cases front with
      | nil =>
        obtain ⟨-, rfl⟩ := List.cons_eq_cons.1 hsplit
        exact hds
      | cons f front =>
        obtain ⟨-, rfl⟩ := List.cons_eq_cons.1 hsplit
        exact List.all_eq_true.2 fun b hb => List.all_eq_true.1 hds b
          (List.mem_append_right front (List.mem_cons_of_mem c hb))
    exact met_left (h _ (by rw [List.all_cons, hfront]; rfl)) hdot hsplit.symm hc (hleft c rfl) hall

/-- The scanner goes over an expression where it expects one, and over what a number at the end of
the expression takes in. -/
theorem Expression.met (he : e.WellSpelled) (hext : ext.all continuesNumber = true)
    (hnumber : ext ≠ [] → e.endsInNumber = true) : e.Met ext := by
  induction e generalizing ext with
  | name text =>
    obtain rfl := nil_of_endsInNumber hnumber rfl
    exact met_name he.1
  | number text => exact met_number he hext
  | group e ih =>
    obtain rfl := nil_of_endsInNumber hnumber rfl
    exact met_group (ih he rfl fun h => absurd rfl h)
  | member e gap field ih =>
    obtain ⟨he, hname, hleft⟩ := he
    cases hdot : e.takesDot gap with
    | false =>
      have hnone : (Expression.member e gap field).endsInNumber = false := by
        rw [endsInNumber, ← takesDot, hdot, Bool.false_and]
      obtain rfl := nil_of_endsInNumber hnumber hnone
      exact met_member (ih he rfl fun h => absurd rfl h) hname hdot
    | true =>
      have hends : e.endsInNumber = true := (Bool.and_eq_true_iff.1 hdot).1
      exact met_takesDot (fun ext hext => ih he hext fun _ => hends) hname hdot (hleft hdot) hext
        hnumber
  | index e gap i ih ih' =>
    obtain rfl := nil_of_endsInNumber hnumber rfl
    exact met_index (ih he.1 rfl fun h => absurd rfl h) (ih' he.2 rfl fun h => absurd rfl h) gap
  | call e gap argument ih ih' =>
    obtain rfl := nil_of_endsInNumber hnumber rfl
    exact met_call (ih he.1 rfl fun h => absurd rfl h) (ih' he.2 rfl fun h => absurd rfl h) gap
  | count e gap counter ih =>
    obtain rfl := nil_of_endsInNumber hnumber rfl
    exact met_count (ih he rfl fun h => absurd rfl h) gap counter
  | binary left before operator after right ih ih' =>
    exact met_binary (ih he.1 rfl fun h => absurd rfl h) (ih' he.2 hext hnumber) before after
      operator

theorem IsUnsigned.exists_head (h : IsUnsigned text) : ∃ c cs, text = c :: cs ∧ c ≠ '#' := by
  obtain ⟨c, cs, rfl, hfirst, -⟩ := h
  refine ⟨c, cs, rfl, ?_⟩
  rintro rfl
  cases hfirst

/-- No expression begins like a hashbang line. -/
theorem Expression.exists_head (he : e.WellSpelled) : ∃ c cs, e.text = c :: cs ∧ c ≠ '#' := by
  have hfront : ∀ {e : Expression} {more}, (∃ c cs, e.text = c :: cs ∧ c ≠ '#') →
      ∃ c cs, e.text ++ more = c :: cs ∧ c ≠ '#' := by
    rintro e more ⟨c, cs, htext, hc⟩
    exact ⟨c, cs ++ more, by rw [htext, List.cons_append], hc⟩
  induction e with
  | name text =>
    obtain ⟨⟨c, cs, htext, -⟩, hhead⟩ := he
    rw [htext, List.head?_cons] at hhead
    exact ⟨c, cs, htext, fun hc => hhead (congrArg some hc)⟩
  | number text =>
    rw [Expression.text]
    rw [WellSpelled] at he
    generalize text.toList = text at he
    cases he with
    | unsigned h => exact h.exists_head
    | signed h hsign hdigits =>
      obtain ⟨c, cs, rfl, hc⟩ := h.exists_head
      exact ⟨c, _, List.cons_append, hc⟩
  | group e ih => exact ⟨'(', _, rfl, by decide⟩
  | member e gap field ih => exact hfront (ih he.1)
  | index e gap i ih ih' => exact hfront (ih he.1)
  | call e gap argument ih ih' => exact hfront (ih he.1)
  | count e gap counter ih => exact hfront (ih he)
  | binary left before operator after right ih ih' => exact hfront (ih he.1)

theorem hashbangLength_cons (hc : c ≠ '#') : hashbangLength (c :: cs) = 0 := by
  unfold hashbangLength
  split
  · next ds hds => exact absurd (List.cons_eq_cons.1 hds).1 hc
  · rfl

/-- The scanner finds all divisions of an expression and no regular expression in it just if it sees
that the operand has ended in front of each division. -/
theorem finds_divisions_iff (h : e.WellSpelled) : (∃ tokens,
    scan (String.ofList e.text) = .ok tokens ∧ (∀ t ∈ tokens, t.kind ≠ .regex) ∧
      tokens.countP (·.isPunctuator "/") = e.divisions) ↔ e.sound = true := by
  have hscan : scan (String.ofList e.text) = Scanner.initial.run (e.text ++ [] ++ []) := by
    obtain ⟨c, cs, htext, hc⟩ := Expression.exists_head h
    rw [scan, String.toList_ofList, List.append_nil, List.append_nil, scanChars, htext,
      hashbangLength_cons hc]
    rfl
  have hmet : e.Met [] := Expression.met h rfl fun h => absurd rfl h
  have hmeets := hmet Scanner.initial rfl rfl
  rw [hscan]
  constructor
  · rintro ⟨tokens, hrun, hkinds, -⟩
    cases hgood : e.sound with
    | true => rfl
    | false =>
      obtain ⟨t, ht, hregex⟩ := hmeets.derails hgood [] tokens hrun
      exact absurd hregex (hkinds t ht)
  · intro hgood
    obtain ⟨s', hpast, hrun⟩ := hmeets.leads hgood
    obtain ⟨ts, hdone, hkinds, hcount⟩ := hpast.gains
    have hstop : s'.Finds [] [] := .stop rfl rfl hpast.substitutions
    refine ⟨ts.reverse, ?_, ?_, ?_⟩
    · rw [hrun [] (by rintro c ⟨⟩), hstop.run_eq, hdone]
      simp [Scanner.initial]
    · exact fun t ht => hkinds t (List.mem_reverse.1 ht)
    · rw [List.countP_reverse, hcount]

/-- The expression `(a[1e+3] / b.in) / f(c++)`. -/
def dividedTwice : Expression :=
  .binary
    (.group (.binary (.index (.name "a") 0 (.number "1e+3")) 0 .divide 0
      (.member (.name "b") 0 "in")))
    0 .divide 0 (.call (.name "f") 0 (.count (.name "c") 0 .increment))

/-- Both divisions are found: the sign of the counter and the name of the keyword stand in front of
brackets. -/
theorem finds_dividedTwice : dividedTwice.WellSpelled ∧
    String.ofList dividedTwice.text = "(a[1e+3] / b.in) / f(c++)" ∧ ∃ tokens,
      scan (String.ofList dividedTwice.text) = .ok tokens ∧ (∀ t ∈ tokens, t.kind ≠ .regex) ∧
        tokens.countP (·.isPunctuator "/") = dividedTwice.divisions := by
  have hname : ∀ {text : String}, isPlainName text = true → text.toList.head? ≠ some '#' →
      (Expression.name text).WellSpelled := fun h hhead => ⟨isNameText_of_isPlainName h, hhead⟩
  have hfront : IsUnsigned ['1', 'e'] := ⟨'1', ['e'], rfl, rfl, rfl⟩
  have hdigits : IsUnsigned ['3'] := ⟨'3', [], rfl, rfl, rfl⟩
  have hnumber : IsNumber "1e+3".toList := .signed hfront (Or.inl rfl) hdigits
  have hspelled : dividedTwice.WellSpelled := by
    refine ⟨⟨⟨hname (by decide) (by decide), hnumber⟩, hname (by decide) (by decide),
      isNameText_of_isPlainName (by decide), by decide⟩, hname (by decide) (by decide),
      hname (by decide) (by decide)⟩
  exact ⟨hspelled, by decide, (finds_divisions_iff hspelled).2 (by decide)⟩

/-- The expression `a++ / b`. -/
def dividedCounter : Expression :=
  .binary (.count (.name "a") 0 .increment) 0 .divide 0 (.name "b")

/-- The division behind the counter is taken for the beginning of a regular expression, and the
script is refused for it. So it is behind a name like a keyword, after a dot or not, and behind the
call of what is named like a control statement. -/
theorem misread_division : dividedCounter.WellSpelled ∧
    String.ofList dividedCounter.text = "a++ / b" ∧ dividedCounter.divisions = 1 ∧
    scan "a++ / b" = .error ⟨.unterminatedRegex, 1, 5⟩ ∧
    scan "a.in / b" = .error ⟨.unterminatedRegex, 1, 6⟩ ∧
    scan "of / b" = .error ⟨.unterminatedRegex, 1, 4⟩ ∧
    scan "a.if(b) / c" = .error ⟨.unterminatedRegex, 1, 9⟩ := by
  refine ⟨⟨⟨isNameText_of_isPlainName (by decide), by decide⟩,
    isNameText_of_isPlainName (by decide), by decide⟩, by decide, by decide, ?_⟩
  refine ⟨?_, ?_, ?_, ?_⟩ <;> decide +kernel

end ModuleBundler.Script
