import ModuleBundler.Proofs.Trivia

/-
  Expressions of names, numbers, brackets and a few operators, and how the scanner goes over parts
  of their texts. What a part leaves behind is told by what it adds to the tokens and by whether a
  slash would begin a regular expression behind it (`Scanner.Past`). A part can also lead the
  scanner astray, so that it takes a regular expression in if it comes to an end at all
  (`Scanner.Derails`). Parts are put together by one rule, `Scanner.Meets.seq`.
-/

namespace ModuleBundler.Script

/-! ## Expressions -/

/-- The binary operators. -/
inductive Operator where
  | plus
  | divide
  deriving DecidableEq, Repr

def Operator.sign : Operator → Char
  | .plus => '+'
  | .divide => '/'

/-- The operators that count a variable up or down, with their sign written twice behind it. -/
inductive Counter where
  | increment
  | decrement
  deriving DecidableEq, Repr

def Counter.sign : Counter → Char
  | .increment => '+'
  | .decrement => '-'

/-- An expression, as it is written: `gap` is the number of spaces in front of what comes behind an
operand, and a binary operator has at least one on both sides. -/
inductive Expression where
  | name (text : String)
  | number (text : String)
  | group (e : Expression)
  | member (e : Expression) (gap : Nat) (field : String)
  | index (e : Expression) (gap : Nat) (i : Expression)
  | call (e : Expression) (gap : Nat) (argument : Expression)
  | count (e : Expression) (gap : Nat) (counter : Counter)
  | binary (left : Expression) (before : Nat) (operator : Operator) (after : Nat)
      (right : Expression)
  deriving Repr

def spaces (n : Nat) : List Char := List.replicate n ' '

namespace Expression

/-- The text of an expression. -/
def text : Expression → List Char
  | .name text => text.toList
  | .number text => text.toList
  | .group e => '(' :: (e.text ++ [')'])
  | .member e gap field => e.text ++ (spaces gap ++ '.' :: field.toList)
  | .index e gap i => e.text ++ (spaces gap ++ '[' :: (i.text ++ [']']))
  | .call e gap argument => e.text ++ (spaces gap ++ '(' :: (argument.text ++ [')']))
  | .count e gap counter => e.text ++ (spaces gap ++ [counter.sign, counter.sign])
  | .binary left before operator after right =>
    left.text ++ (spaces (before + 1) ++ operator.sign :: ' ' :: (spaces after ++ right.text))

/-- The number of divisions in an expression. -/
def divisions : Expression → Nat
  | .name _ => 0
  | .number _ => 0
  | .group e => e.divisions
  | .member e _ _ => e.divisions
  | .index e _ i => e.divisions + i.divisions
  | .call e _ argument => e.divisions + argument.divisions
  | .count e _ _ => e.divisions
  | .binary left _ operator _ right =>
    left.divisions + (if operator = .divide then 1 else 0) + right.divisions

/-- Whether an expression ends with a number, which takes in what is written right behind it as long
as that is made of letters, digits, dots and underscores. -/
def endsInNumber : Expression → Bool
  | .number _ => true
  | .member e gap field => e.endsInNumber && gap == 0 && field.toList.all continuesNumber
  | .binary _ _ _ _ right => right.endsInNumber
  | _ => false

/-- Whether the dot behind an expression belongs to a number. -/
def takesDot (e : Expression) (gap : Nat) : Bool := e.endsInNumber && gap == 0

/-- The names behind which a parenthesis holds the condition of a control statement. -/
def headNames : List String := ["if", "while", "for", "with"]

/-- Whether the scanner takes a parenthesis behind an expression for the condition of a control
statement. -/
def endsInHead : Expression → Bool
  | .name text => headNames.contains text
  | .member e gap field => !e.takesDot gap && headNames.contains field
  | .binary _ _ _ _ right => right.endsInHead
  | _ => false

/-- Whether the scanner sees that an expression has ended. It does not if the last token is the sign
of a counter, a name that is also a keyword with an expression behind it, or the parenthesis of what
it takes for the condition of a control statement. -/
def endsOperand : Expression → Bool
  | .name text => !Scanner.expressionKeywords.contains text
  | .member e gap field => e.takesDot gap || !Scanner.expressionKeywords.contains field
  | .call e _ _ => !e.endsInHead
  | .count _ _ _ => false
  | .binary _ _ _ _ right => right.endsOperand
  | _ => true

/-- Whether the scanner sees, in front of each division, that an expression has ended. -/
def sound : Expression → Bool
  | .name _ => true
  | .number _ => true
  | .group e => e.sound
  | .member e _ _ => e.sound
  | .index e _ i => e.sound && i.sound
  | .call e _ argument => e.sound && argument.sound
  | .count e _ _ => e.sound
  | .binary left _ operator _ right =>
    left.sound && (operator != .divide || left.endsOperand) && right.sound

end Expression

/-! ## How names and numbers are spelled -/

/-- A number without the sign of an exponent. -/
def IsUnsigned (text : List Char) : Prop :=
  ∃ c cs, text = c :: cs ∧ (c.isDigit || (c == '.' && cs.head?.any Char.isDigit)) = true ∧
    cs.all continuesNumber = true

/-- A number, whose exponent may have a sign. -/
inductive IsNumber : List Char → Prop
  | unsigned {text : List Char} (h : IsUnsigned text) : IsNumber text
  | signed {front digits : List Char} {sign : Char} (hfront : IsUnsigned front)
      (hsign : sign = '+' ∨ sign = '-') (hdigits : IsUnsigned digits) :
      IsNumber (front ++ sign :: digits)

/-- Whether names are made of the characters that the scanner takes for those of names, and numbers
are spelled as such. Where a name is written right behind the dot of a number, what the number
leaves of it must begin like a name. -/
def Expression.WellSpelled : Expression → Prop
  | .name text => IsNameText text ∧ text.toList.head? ≠ some '#'
  | .number text => IsNumber text.toList
  | .group e => e.WellSpelled
  | .member e gap field => e.WellSpelled ∧ IsNameText field ∧ (e.takesDot gap = true →
      ∀ c ∈ (field.toList.dropWhile continuesNumber).head?, startsName c = true)
  | .index e _ i => e.WellSpelled ∧ i.WellSpelled
  | .call e _ argument => e.WellSpelled ∧ argument.WellSpelled
  | .count e _ _ => e.WellSpelled
  | .binary left _ _ _ right => left.WellSpelled ∧ right.WellSpelled

variable {s s' s'' : Scanner} {text more rest cs : List Char} {c : Char} {kind : TokenKind}
  {lexeme : Lexeme} {t : Token} {tokens : List Token} {n m : Nat}
  {regex regex' head head' good good' : Bool} {ends ends' : List Char → Prop}
  {post post' : Scanner → Prop}

/-! ## Going over a part -/

/-- Whether a scanner that comes to an end at all behind a text has taken a regular expression
in. -/
def Scanner.Derails (s : Scanner) (text : List Char) : Prop :=
  ∀ rest tokens, s.run (text ++ rest) = .ok tokens → ∃ t ∈ tokens, t.kind = .regex

/-- Whether a scanner goes over a text, whatever follows as long as `ends` holds of it, and then
stands so that `post` holds; or is led astray by the text, if it is not `good`. -/
structure Scanner.Meets (s : Scanner) (text : List Char) (ends : List Char → Prop) (good : Bool)
    (post : Scanner → Prop) : Prop where
  leads : good = true → ∃ s', post s' ∧ ∀ rest, ends rest → s.run (text ++ rest) = s'.run rest
  derails : good = false → s.Derails text

theorem Scanner.Meets.of_run (s' : Scanner) (hpost : post s')
    (hrun : ∀ rest, ends rest → s.run (text ++ rest) = s'.run rest) :
    s.Meets text ends true post where
  leads _ := ⟨s', hpost, hrun⟩
  derails h := absurd h (by decide)

theorem Scanner.Derails.append (h : s.Derails text) (more : List Char) :
    s.Derails (text ++ more) := by
  intro rest tokens hrun
  rw [List.append_assoc] at hrun
  exact h _ _ hrun

/-- Two parts, one after the other. -/
theorem Scanner.Meets.seq (h : s.Meets text ends good post) (hends : ∀ rest, ends (more ++ rest))
    (hmore : ∀ s', post s' → s'.Meets more ends' good' post') :
    s.Meets (text ++ more) ends' (good && good') post' where
  leads hgood := by
    rw [Bool.and_eq_true] at hgood
    obtain ⟨s', hpost, hrun⟩ := h.leads hgood.1
    obtain ⟨s'', hpost', hrun'⟩ := (hmore s' hpost).leads hgood.2
    refine ⟨s'', hpost', fun rest hrest => ?_⟩
    rw [List.append_assoc, hrun _ (hends rest), hrun' rest hrest]
  derails hbad := by
    cases hgood : good with
    | false => exact (h.derails hgood).append more
    | true =>
      rw [hgood, Bool.true_and] at hbad
      obtain ⟨s', hpost, hrun⟩ := h.leads hgood
      intro rest tokens hok
      rw [List.append_assoc, hrun _ (hends rest)] at hok
      exact (hmore s' hpost).derails hbad rest tokens hok

theorem Scanner.Meets.imp (h : s.Meets text ends good post) (hpost : ∀ s', post s' → post' s')
    (hends : ∀ rest, ends' rest → ends rest) : s.Meets text ends' good post' where
  leads hgood := by
    obtain ⟨s', hs', hrun⟩ := h.leads hgood
    exact ⟨s', hpost s' hs', fun rest hrest => hrun rest (hends rest hrest)⟩
  derails := h.derails

/-- Whether the tokens `s'` has on top of those of `s` are no regular expressions, with `n`
divisions among them. -/
def Scanner.Gains (s : Scanner) (n : Nat) (s' : Scanner) : Prop :=
  ∃ ts, s'.done = ts ++ s.done ∧ (∀ t ∈ ts, t.kind ≠ .regex) ∧
    ts.countP (·.isPunctuator "/") = n

theorem Scanner.Gains.trans (h : s.Gains n s') (h' : s'.Gains m s'') : s.Gains (n + m) s'' := by
  obtain ⟨ts, hdone, hkinds, hcount⟩ := h
  obtain ⟨ts', hdone', hkinds', hcount'⟩ := h'
  refine ⟨ts' ++ ts, by rw [hdone', hdone, List.append_assoc], ?_, ?_⟩
  · exact fun t ht => (List.mem_append.1 ht).elim (hkinds' t) (hkinds t)
  · rw [List.countP_append, hcount, hcount', Nat.add_comm]

/-- Where a scanner stands behind a part of an expression that it met as `s`: no bracket is left
open, the tokens have come on top, and what a slash and a parenthesis mean there. -/
structure Scanner.Past (s : Scanner) (n : Nat) (regex head : Bool) (s' : Scanner) : Prop where
  substitutions : s'.substitutions = []
  depth : s'.depth = s.depth
  heads : s'.heads = s.heads
  gains : s.Gains n s'
  regexAllowed : s'.regexAllowed = regex
  opensHead : s'.opensHead = head

theorem Scanner.Past.trans (h : s.Past n regex head s') (h' : s'.Past m regex' head' s'') :
    s.Past (n + m) regex' head' s'' where
  substitutions := h'.substitutions
  depth := h'.depth.trans h.depth
  heads := h'.heads.trans h.heads
  gains := h.gains.trans h'.gains
  regexAllowed := h'.regexAllowed
  opensHead := h'.opensHead

/-- Two parts of an expression. -/
theorem Scanner.Meets.then (h : s.Meets text ends good (s.Past n regex head))
    (hends : ∀ rest, ends (more ++ rest))
    (hmore : ∀ s', s.Past n regex head s' → s'.Meets more ends' good' (s'.Past m regex' head')) :
    s.Meets (text ++ more) ends' (good && good') (s.Past (n + m) regex' head') :=
  h.seq hends fun s' hs' => (hmore s' hs').imp (fun _ h' => hs'.trans h') fun _ h => h

/-! ## Spaces -/

theorem Scanner.run_spaces (n : Nat) (s : Scanner) (cs : List Char) :
    s.run (spaces n ++ cs) = { s with position := s.position.after (spaces n) }.run cs := by
  induction n generalizing s with
  | zero => rfl
  | succ n ih => exact (Scanner.run_space rfl rfl s _).trans (ih _)

theorem Scanner.Past.moved (hsub : s.substitutions = []) (position : Position) :
    s.Past 0 s.regexAllowed s.opensHead { s with position } where
  substitutions := hsub
  depth := rfl
  heads := rfl
  gains := ⟨[], rfl, by simp, rfl⟩
  regexAllowed := rfl
  opensHead := rfl

theorem Scanner.meets_spaces (n : Nat) (hsub : s.substitutions = []) :
    s.Meets (spaces n) (fun _ => True) true (s.Past 0 s.regexAllowed s.opensHead) :=
  .of_run _ (.moved hsub _) fun rest _ => s.run_spaces n rest

/-! ## Tokens -/

/-- A scanner goes over a lexeme that it has come to. -/
theorem Scanner.run_takes (cs : List Char) (hsub : s.substitutions = [])
    (hstop : IsStop c (cs ++ rest))
    (hlexeme : lexemeAt false s.regexAllowed c (cs ++ rest) = .ok lexeme)
    (hmore : lexeme.more = cs.length) (htakes : s.Takes s.position false (c :: cs) lexeme s') :
    s.run (c :: cs ++ rest) = s'.run rest := by
  obtain ⟨depth, hdone, -⟩ := htakes.exists_token
  have hblank : blankLength .between 0 false (c :: cs ++ rest) =
      .ok (([] : List Char).length, false) := blankLength_stop hstop 0 false
  refine Scanner.Turn.run_eq (.take rfl hblank ?_ hmore (Scanner.take_eq_ok_iff.2 htakes) hdone)
  rw [closesSubstitution_eq_false hsub, hlexeme]

/-- A scanner goes over a punctuator of one character. -/
theorem Scanner.run_mark (hsub : s.substitutions = []) (hstop : IsStop c rest)
    (hlexeme : lexemeAt false s.regexAllowed c rest = .ok (.plain .punctuator 0))
    (htakes : s.Takes s.position false [c] (.plain .punctuator 0) s') :
    s.run (c :: rest) = s'.run rest :=
  s.run_takes [] hsub hstop hlexeme rfl htakes

/-- A scanner with one more token, which opens and closes nothing. -/
def Scanner.pushed (s : Scanner) (kind : TokenKind) (text : List Char) : Scanner :=
  s.push ⟨kind, String.ofList text, s.position, s.depth, false⟩ text

theorem Scanner.gains_of_done (hdone : s'.done = t :: s.done) (hkind : t.kind ≠ .regex)
    (hslash : t.isPunctuator "/" = false) : s.Gains 0 s' :=
  ⟨[t], hdone, by simpa using hkind, by simp [hslash]⟩

theorem Scanner.gains_pushed (s : Scanner) (text : List Char)
    (hkind : kind ≠ .regex ∧ kind ≠ .punctuator) : s.Gains 0 (s.pushed kind text) :=
  Scanner.gains_of_done rfl hkind.1 (by simp [Token.isPunctuator, hkind.2])

theorem Scanner.gains_sign (s : Scanner) (hc : c ≠ '/') :
    s.Gains 0 (s.pushed .punctuator [c]) := by
  refine Scanner.gains_of_done rfl (by simp) ?_
  rw [Token.isPunctuator, Bool.and_eq_false_iff]
  exact Or.inr ((ofList_beq [c] ['/']).trans (by simpa using hc))

theorem isStop_of_ne (hspace : isSpace c = false) (hslash : c ≠ '/') : IsStop c cs where
  space := hspace
  line h := hslash (List.cons_prefix_cons.1 h).1.symm
  block h := hslash (List.cons_prefix_cons.1 h).1.symm

/-- Whether a text does not begin with a character of this kind. -/
def Stops (p : Char → Bool) (rest : List Char) : Prop := ∀ c ∈ rest.head?, p c = false

/-! ### Names -/

/-- Where a parenthesis would not hold the condition of a control statement, the last token is not
the name of a loop. -/
theorem Scanner.isName_for_of_opensHead (h : s.opensHead = false) :
    ∀ t ∈ s.done.head?, t.isName "for" = false := by
  intro t ht
  cases hdone : s.done with
  | nil =>
    rw [hdone] at ht
    cases ht
  | cons u us =>
    rw [hdone] at ht
    obtain rfl := Option.some.inj ht
    rw [Scanner.opensHead, hdone] at h
    dsimp only at h
    split at h
    · next hawait =>
      rw [Token.isName, Bool.and_eq_true, beq_iff_eq, beq_iff_eq] at hawait
      rw [Token.isName, hawait.2, Bool.and_eq_false_iff]
      exact Or.inr (by decide)
    · simp only [Bool.or_eq_false_iff] at h
      exact h.1.2

theorem Scanner.opensHead_name (h : s.opensHead = false) (cs : List Char) :
    (s.pushed .name cs).opensHead = Expression.headNames.contains (String.ofList cs) := by
  have hfor := Scanner.isName_for_of_opensHead h
  rw [Scanner.opensHead]
  simp only [Scanner.pushed, Scanner.push, Token.isName, beq_self_eq_true, Bool.true_and]
  split
  · next hawait =>
    rw [beq_iff_eq.1 hawait]
    cases hdone : s.done with
    | nil => rfl
    | cons t ts => exact (hfor t (by rw [hdone]; rfl)).trans (by decide)
  · simp only [Expression.headNames, List.contains_cons, List.contains_nil, Bool.or_false,
      Bool.or_assoc]

/-- A name, behind which a slash begins a regular expression if the name is such a keyword. -/
theorem Scanner.meets_name (hsub : s.substitutions = []) (hhead : s.opensHead = false)
    (hstarts : startsName c = true) (hall : cs.all continuesName = true) :
    s.Meets (c :: cs) (Stops continuesName) true
      (s.Past 0 (Scanner.expressionKeywords.contains (String.ofList (c :: cs)))
        (Expression.headNames.contains (String.ofList (c :: cs)))) := by
  have hslash : c ≠ '/' := ne_of_startsName hstarts rfl
  refine .of_run (s.pushed .name (c :: cs)) ?_ fun rest hrest => ?_
  · exact ⟨hsub, rfl, rfl, s.gains_pushed _ (by decide), rfl, s.opensHead_name hhead _⟩
  · refine s.run_takes cs hsub (isStop_of_ne (isSpace_of_startsName hstarts) hslash)
      (lexemeAt_name hstarts _ _) ?_ (.other ?_)
    · rw [Lexeme.more, takeWhile_append_of_all hall hrest]
    · rintro ⟨⟩

/-! ### Numbers -/

theorem isStop_of_continuesNumber (h : continuesNumber c = true) : IsStop c cs := by
  have hlt : c.toNat < 128 := by
    rw [continuesNumber, Bool.or_eq_true, Bool.or_eq_true, beq_iff_eq] at h
    rcases h with (h | rfl) | h
    · exact toNat_lt_of_continuesPlainName (by rw [continuesPlainName, h, Bool.or_true])
    · decide
    · exact toNat_lt_of_continuesPlainName (by rw [continuesPlainName, h]; rfl)
  have hall : (!continuesNumber c || (!isSpace c && c != '/')) = true :=
    of_forall_ascii (p := fun c => !continuesNumber c || (!isSpace c && c != '/')) (by decide) hlt
  rw [h, Bool.not_true, Bool.false_or, Bool.and_eq_true, Bool.not_eq_true', bne_iff_ne] at hall
  exact isStop_of_ne hall.1 hall.2

/-- Whether a number begins with a character, told by the text behind it, does not depend on the end
of that text. -/
theorem startsNumber_append (h : (c.isDigit || (c == '.' && cs.head?.any Char.isDigit)) = true)
    (more : List Char) :
    (c.isDigit || (c == '.' && (cs ++ more).head?.any Char.isDigit)) = true := by
  cases cs with
  | nil =>
    rw [List.head?_nil, Option.any_none, Bool.and_false, Bool.or_false] at h
    rw [h, Bool.true_or]
  | cons d cs => exact h

/-- A number. -/
theorem Scanner.meets_number (hsub : s.substitutions = []) (h : IsUnsigned text) :
    s.Meets text (Stops continuesNumber) true (s.Past 0 false false) := by
  obtain ⟨c, cs, rfl, hfirst, hall⟩ := h
  refine .of_run (s.pushed .number (c :: cs)) ?_ fun rest hrest => ?_
  · exact ⟨hsub, rfl, rfl, s.gains_pushed _ (by decide), rfl, rfl⟩
  · have hnumber : continuesNumber c = true := by
      rw [continuesNumber, Char.isAlphanum]
      rcases Bool.or_eq_true_iff.1 hfirst with hdigit | hdot
      · rw [hdigit, Bool.or_true]
        rfl
      · rw [beq_iff_eq.1 (Bool.and_eq_true_iff.1 hdot).1]
        rfl
    refine s.run_takes cs hsub (isStop_of_continuesNumber hnumber)
      (lexemeAt_number (startsNumber_append hfirst rest) _) ?_ (.other ?_)
    · rw [Lexeme.more, takeWhile_append_of_all hall hrest]
    · rintro ⟨⟩

/-! ### Signs -/

/-- The sign of an operator that is not a division. -/
theorem Scanner.meets_sign (hsub : s.substitutions = []) (hc : c = '+' ∨ c = '-') :
    s.Meets [c] (fun _ => True) true (s.Past 0 true false) := by
  refine .of_run (s.pushed .punctuator [c]) ?_ fun rest hrest => ?_
  · rcases hc with rfl | rfl
    · exact ⟨hsub, rfl, rfl, s.gains_sign (by decide), rfl, rfl⟩
    · exact ⟨hsub, rfl, rfl, s.gains_sign (by decide), rfl, rfl⟩
  · rcases hc with rfl | rfl
    · exact s.run_mark hsub (isStop_of_ne rfl (by decide)) rfl (.other fun _ => ⟨rfl, rfl⟩)
    · exact s.run_mark hsub (isStop_of_ne rfl (by decide)) rfl (.other fun _ => ⟨rfl, rfl⟩)

/-- A dot that is not part of a number. -/
theorem Scanner.meets_dot (hsub : s.substitutions = []) :
    s.Meets ['.'] (fun rest => ∀ c ∈ rest.head?, c.isDigit = false ∧ c ≠ '.') true
      (s.Past 0 true false) := by
  refine .of_run (s.pushed .punctuator ['.']) ?_ fun rest hrest => ?_
  · exact ⟨hsub, rfl, rfl, s.gains_sign (by decide), rfl, rfl⟩
  · exact s.run_mark hsub (isStop_of_ne rfl (by decide)) (lexemeAt_dot hrest _)
      (.other fun _ => ⟨rfl, rfl⟩)

/-- Where a slash begins a regular expression, a lexeme with a slash in front is one. -/
theorem kind_of_slash {closing : Bool} (h : lexemeAt closing true '/' cs = .ok lexeme) :
    lexeme.kind = .regex := by
  rw [lexemeAt, if_neg (by decide), if_neg (by simp), if_neg (by simp), if_neg (by decide),
    if_pos (by decide)] at h
  split at h
  · cases h
    rfl
  · cases h

/-- A slash with a space behind it: a division where the scanner sees that an expression has ended,
and the beginning of a regular expression otherwise. -/
theorem Scanner.meets_slash (hsub : s.substitutions = []) :
    s.Meets ['/', ' '] (fun _ => True) (!s.regexAllowed) (s.Past 1 true false) := by
  have hstop : ∀ rest, IsStop '/' (' ' :: rest) := by
    intro rest
    refine ⟨rfl, ?_, ?_⟩ <;> simp [List.cons_prefix_cons]
  constructor
  · intro hregex
    rw [Bool.not_eq_true'] at hregex
    refine ⟨{ s.pushed .punctuator ['/'] with
      position := (s.pushed .punctuator ['/']).position.next ' ' }, ?_, fun rest _ => ?_⟩
    · exact ⟨hsub, rfl, rfl, ⟨[_], rfl, by simp, rfl⟩, rfl, rfl⟩
    · have hslash := s.run_mark hsub (hstop rest) (by rw [hregex]; rfl)
        (.other fun _ => ⟨rfl, rfl⟩)
      exact hslash.trans (Scanner.run_space rfl rfl _ rest)
  · intro hregex rest tokens hrun
    rw [Bool.not_eq_false'] at hregex
    obtain ⟨found, rfl, hfound⟩ := Scanner.finds_of_run hrun
    cases hfound with
    | stop hblank hend hsub =>
      obtain ⟨rfl, -⟩ := Prod.mk.inj (Except.ok.inj
        ((blankLength_stop (hstop rest) 0 false).symm.trans hblank))
      cases hend
    | @turn _ s' _ _ t ts hturn hrest =>
      refine ⟨t, by simp, ?_⟩
      cases hturn with
      | @take gap cs newline c lexeme hinput hblank hlexeme hmore htake hdone =>
        obtain ⟨depth, rfl, -⟩ := Scanner.token_eq htake hdone
        have hgap := (Prod.mk.inj (Except.ok.inj
          ((blankLength_stop (hstop rest) 0 false).symm.trans hblank))).1
        obtain rfl := List.length_eq_zero_iff.1 hgap.symm
        obtain ⟨rfl, -⟩ := List.cons_eq_cons.1 hinput
        rw [hregex] at hlexeme
        exact kind_of_slash hlexeme

/-! ### Brackets -/

/-- The brackets of a part. -/
def openMark (paren : Bool) : Char := if paren then '(' else '['

def closeMark (paren : Bool) : Char := if paren then ')' else ']'

/-- The scanner behind an opening bracket. -/
def Scanner.opened (s : Scanner) (paren : Bool) : Scanner :=
  s.takeOpener s.position false [openMark paren]

theorem Scanner.run_opener (hsub : s.substitutions = []) (paren : Bool) (rest : List Char) :
    s.run (openMark paren :: rest) = (s.opened paren).run rest := by
  cases paren with
  | true =>
    exact s.run_mark hsub (isStop_of_ne rfl (by decide))
      (lexemeAt_of_mem_marks (c := '(') (by decide) _ _) (.opener rfl)
  | false =>
    exact s.run_mark hsub (isStop_of_ne rfl (by decide))
      (lexemeAt_of_mem_marks (c := '[') (by decide) _ _) (.opener rfl)

/-- Behind a parenthesis that was taken for the end of a condition, a slash begins a regular
expression. -/
theorem Scanner.meets_closer (paren : Bool) (hpast : (s.opened paren).Past n regex head s') :
    s'.Meets [closeMark paren] (fun _ => True) true (s.Past n (paren && s.opensHead) false) := by
  obtain ⟨hsub, hdepth, hheads, hgains, -, -⟩ := hpast
  have hopened : s.Gains 0 (s.opened paren) := by
    cases paren with
    | true => exact Scanner.gains_of_done rfl (by simp) rfl
    | false => exact Scanner.gains_of_done rfl (by simp) rfl
  have hwhole := hopened.trans hgains
  rw [Nat.zero_add] at hwhole
  cases paren with
  | true =>
    refine .of_run _ ?_ fun rest _ => s'.run_mark hsub (isStop_of_ne rfl (by decide))
      (lexemeAt_of_mem_marks (c := ')') (by decide) _ _)
      (.closer rfl rfl (Scanner.takeCloser_eq_ok_iff.2 ⟨s.depth, hdepth, rfl⟩))
    refine ⟨hsub, rfl, ?_, hwhole.trans (Scanner.gains_of_done rfl (by simp) rfl), ?_, rfl⟩
    · show s'.heads.tail = s.heads
      rw [hheads]
      rfl
    · show s'.heads.head?.getD false = s.opensHead
      rw [hheads]
      rfl
  | false =>
    refine .of_run _ ?_ fun rest _ => s'.run_mark hsub (isStop_of_ne rfl (by decide))
      (lexemeAt_of_mem_marks (c := ']') (by decide) _ _)
      (.closer rfl rfl (Scanner.takeCloser_eq_ok_iff.2 ⟨s.depth, hdepth, rfl⟩))
    exact ⟨hsub, rfl, hheads, hwhole.trans (Scanner.gains_of_done rfl (by simp) rfl), rfl, rfl⟩

/-- A part in brackets. -/
theorem Scanner.meets_bracket (paren : Bool) (hsub : s.substitutions = [])
    (hinner : ∀ s' : Scanner, s'.substitutions = [] → s'.opensHead = false →
      s'.Meets text ends good (s'.Past n regex head))
    (hends : ∀ rest, ends (closeMark paren :: rest)) :
    s.Meets (openMark paren :: (text ++ [closeMark paren])) (fun _ => True) good
      (s.Past n (paren && s.opensHead) false) := by
  have hopener : s.Meets [openMark paren] (fun _ => True) true fun s' => s' = s.opened paren :=
    .of_run _ rfl fun rest _ => s.run_opener hsub paren rest
  have hhead : (s.opened paren).opensHead = false := by
    cases paren <;> rfl
  have hrest := (hinner (s.opened paren) hsub hhead).seq hends fun s' => Scanner.meets_closer paren
  have hwhole := hopener.seq (fun _ => trivial) fun s' hs' => by
    subst hs'
    exact hrest
  rwa [Bool.true_and, Bool.and_true] at hwhole

end ModuleBundler.Script
