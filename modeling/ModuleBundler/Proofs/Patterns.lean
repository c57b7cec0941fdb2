import ModuleBundler.Proofs.Depths
import ModuleBundler.Script.Statement.Variables
import Mathlib.Data.List.Forall2

/-
  Patterns, and the names that are found in them. A pattern is a name, or a list of items in braces
  or square brackets; an item may have a key in front and a default value behind (`Pattern`).
  Reading the flat tokens of a pattern finds the names that it binds, in order, and nothing of its
  keys and default values, but for computed keys: what stands between their brackets is read as if
  it were part of the pattern (`Pattern.patternNames_eq`).
-/

namespace ModuleBundler.Script

/-! ## Patterns -/

/-- An expression that stands between commas: its brackets nest, and no comma stands outside
them. -/
structure Operand where
  words : List Word
  balanced : IsBalanced words := by decide
  undivided : ∀ i < words.length, words[i]? = some (mark ",") → ¬ IsBalanced (words.take i) := by
    decide

/-- A word of a literal key: of a string, or of a number with the sign of its exponent. -/
def IsLiteralWord (w : Word) : Prop :=
  w.1 = .string ∨ w.1 = .number ∨ w = mark "+" ∨ w = mark "-"

/-- The key of a property. -/
inductive Key where
  | name (text : String)
  | literal (words : List Word) (literal : ∀ w ∈ words, IsLiteralWord w)
  | computed (value : Operand)

/-- The kinds of patterns with items. -/
inductive PatternKind where
  | object
  | array
  deriving DecidableEq

mutual

/-- A pattern that binds names. -/
inductive Pattern where
  | name (text : String)
  | group (kind : PatternKind) (items : Items)

/-- The items of a pattern, with commas between them. -/
inductive Items where
  | last (item : Item)
  | more (item : Item) (others : Items)

/-- An item of a pattern. There is nothing between two commas of a list with a hole, nor behind a
comma at its end. -/
inductive Item where
  | hole
  | element (target : Pattern) (default? : Option Operand)
  | property (key : Key) (target : Pattern) (default? : Option Operand)
  | rest (target : Pattern)

end

/-! ## What a pattern is written with -/

/-- The brackets around items. -/
def PatternKind.opener : PatternKind → String
  | .object => "\x7b"
  | .array => "["

def PatternKind.closer : PatternKind → String
  | .object => "\x7d"
  | .array => "]"

def Key.words : Key → List Word
  | .name text => [(.name, text)]
  | .literal words _ => words
  | .computed value => mark "[" :: (value.words ++ [mark "]"])

/-- The words of a default value. -/
def defaultWords : Option Operand → List Word
  | none => []
  | some value => mark "=" :: value.words

mutual

def Pattern.words : Pattern → List Word
  | .name text => [(.name, text)]
  | .group kind items => mark kind.opener :: (items.words ++ [mark kind.closer])

def Items.words : Items → List Word
  | .last item => item.words
  | .more item others => item.words ++ mark "," :: others.words

def Item.words : Item → List Word
  | .hole => []
  | .element target default? => target.words ++ defaultWords default?
  | .property key target default? =>
    key.words ++ mark ":" :: (target.words ++ defaultWords default?)
  | .rest target => mark "..." :: target.words

end

/-! ## Which names it gives -/

/-- The names that a key gives if a computed one gives those of `f`. -/
def Key.namesWith (f : Operand → List String) : Key → List String
  | .computed value => f value
  | _ => []

mutual

/-- The names that a pattern gives, in order, if a computed key gives those of `f`. No other key and
no default value gives a name. -/
def Pattern.namesWith (f : Operand → List String) : Pattern → List String
  | .name text => [text]
  | .group _ items => items.namesWith f

def Items.namesWith (f : Operand → List String) : Items → List String
  | .last item => item.namesWith f
  | .more item others => item.namesWith f ++ others.namesWith f

def Item.namesWith (f : Operand → List String) : Item → List String
  | .hole => []
  | .element target _ => target.namesWith f
  | .property key target _ => key.namesWith f ++ target.namesWith f
  | .rest target => target.namesWith f

end

/-- The names that a pattern binds. -/
def Pattern.bound (p : Pattern) : List String := p.namesWith fun _ => []

/-- The tokens of words, from a depth on. -/
def standing (d : Nat) : List Word → List Token
  | [] => []
  | w :: words => ⟨w.1, w.2, default, placeOf d w, false⟩ :: standing (depthPast d w) words

/-- The names that a computed key lets through: those that are found in it as if it were part of the
pattern. -/
def Operand.exposed (value : Operand) : List String :=
  patternNames ⟨.punctuator, "[", default, 0, false⟩ none (standing 0 value.words)

/-- The names that reading a pattern finds. -/
def Pattern.found (p : Pattern) : List String := p.namesWith Operand.exposed

variable {d k : Nat} {previous previous' t u opener closer : Token} {ts us rest : List Token}
  {words : List Word} {stack : List Bracket}

/-! ## Single tokens -/

theorem patternNames_of_not_name (hkind : t.kind ≠ .name) (hequals : t.isPunctuator "=" = false) :
    patternNames previous none (t :: ts) = patternNames t none ts := by
  simp [patternNames, hkind, hequals]

theorem patternNames_mark {text : String} (h : t.word = mark text) (hequals : text ≠ "=") :
    patternNames previous none (t :: ts) = patternNames t none ts := by
  refine patternNames_of_not_name ?_ ?_
  · rw [(Prod.mk.inj h).1]
    decide
  · rw [isPunctuator_of_word h]
    exact beq_eq_false_iff_ne.2 hequals

/-- Whether a name ends the part of a pattern before these tokens, as far as they say. -/
def EndsName (rest : List Token) : Prop :=
  ∀ t ∈ rest.head?, t.kind ≠ .name ∧ t.isPunctuator ":" = false

theorem patternNames_name (hkind : t.kind = .name) (hts : EndsName ts)
    (hprevious : previous.isPunctuator "." = false) :
    patternNames previous none (t :: ts) = t.text :: patternNames t none ts := by
  have hequals : t.isPunctuator "=" = false := by simp [Token.isPunctuator, hkind]
  have hcolon : ts.head?.any (·.isPunctuator ":") = false := by
    cases hhead : ts.head? with
    | none => rfl
    | some u => exact (hts u hhead).2
  simp [patternNames, hequals, hcolon, hprevious, hkind]

theorem patternNames_key (hkind : t.kind = .name) (hcolon : u.isPunctuator ":" = true) :
    patternNames previous none (t :: u :: ts) = patternNames t none (u :: ts) := by
  have hequals : t.isPunctuator "=" = false := by simp [Token.isPunctuator, hkind]
  rw [patternNames]
  simp [hequals, hcolon]

/-- The token before matters for a name only. -/
theorem EndsName.patternNames_eq (h : EndsName rest) (previous previous' : Token) :
    patternNames previous none rest = patternNames previous' none rest := by
  cases rest with
  | nil => rfl
  | cons t ts =>
    have hkind := (h t rfl).1
    simp [patternNames, hkind]

/-! ## Default values -/

/-- Whether an item at a depth ends before these tokens. -/
def EndsItem (d : Nat) (rest : List Token) : Prop :=
  ∀ t ∈ rest.head?, t.isPunctuator "," = true ∧ t.depth = d ∨ t.isCloser = true ∧ t.depth < d

theorem EndsItem.endsName (h : EndsItem d rest) : EndsName rest := by
  intro t ht
  rcases h t ht with ⟨hcomma, -⟩ | ⟨hcloser, -⟩
  · simp only [Token.isPunctuator, Bool.and_eq_true, beq_iff_eq] at hcomma
    simp [Token.isPunctuator, hcomma]
  · refine ⟨?_, Token.not_isPunctuator_of_isCloser hcloser (by decide)⟩
    rw [(Token.isCloser_cases hcloser).1]
    decide

/-- A default value ends where its item does. -/
theorem patternNames_of_endsItem (h : EndsItem d rest) :
    patternNames previous (some d) rest = patternNames previous' none rest := by
  cases rest with
  | nil => rfl
  | cons t ts =>
    have hends := h t rfl
    have hequals : t.isPunctuator "=" = false := by
      rcases hends with ⟨hcomma, -⟩ | ⟨hcloser, -⟩
      · simp_all [Token.isPunctuator]
      · exact Token.not_isPunctuator_of_isCloser hcloser (by decide)
    rw [patternNames_of_not_name (h.endsName t rfl).1 hequals, patternNames, if_pos]
    rcases hends with ⟨hcomma, hdepth⟩ | ⟨-, hdepth⟩
    · simp [hcomma, hdepth]
    · simp [hdepth]

/-- No name is found in a default value. -/
theorem patternNames_default (hplaced : Placed (d + stack.length) ts)
    (hnest : nesting stack (ts.map Token.word) = some [])
    (hundivided : ∀ before after, ts.map Token.word = before ++ mark "," :: after →
      nesting stack before ≠ some [])
    (hrest : EndsItem d rest) :
    patternNames previous (some d) (ts ++ rest) = patternNames previous' none rest := by
  induction ts generalizing stack previous with
  | nil => exact patternNames_of_endsItem hrest
  | cons t ts ih =>
    obtain ⟨hdepth, hplaced⟩ := placed_cons.1 hplaced
    rw [List.map_cons, nesting_cons, Option.bind_eq_some_iff] at hnest
    obtain ⟨inner, hword, hnest⟩ := hnest
    rw [depthPast_of_nest hword] at hplaced
    rw [placeOf_add hword] at hdepth
    -- A comma at the depth of the item would stand outside all brackets of the value.
    have hcomma : ¬ (t.depth < d || (t.depth == d && t.isPunctuator ",")) = true := by
      simp only [Bool.or_eq_true, decide_eq_true_eq, Bool.and_eq_true, beq_iff_eq, not_or]
      refine ⟨by omega, ?_⟩
      rintro ⟨hd, hcomma⟩
      have hmark : t.word = mark "," := by
        simpa [Token.isPunctuator, Token.word, mark] using hcomma
      have hplace : placeOf stack.length t.word = stack.length := by
        rw [hmark]
        exact placeOf_of_not_template (by decide) (by decide)
      have hstack : stack = [] := List.length_eq_zero_iff.1 (by omega)
      subst hstack
      exact hundivided [] _ (by rw [List.map_cons, hmark]; rfl) rfl
    rw [List.cons_append, patternNames, if_neg hcomma]
    refine ih hplaced hnest ?_
    intro before after hsplit hbefore
    refine hundivided (t.word :: before) after (by rw [List.map_cons, hsplit]; rfl) ?_
    rw [nesting_cons, hword]
    exact hbefore

theorem Operand.not_isBalanced_of_comma (value : Operand) {before after : List Word}
    (h : value.words = before ++ mark "," :: after) : ¬ IsBalanced before := by
  have hbefore := value.undivided before.length (by simp [h]) (by simp [h])
  rwa [h, List.take_left] at hbefore

theorem Operand.patternNames_eq (value : Operand) (hwords : ts.map Token.word = value.words)
    (hplaced : Placed d ts) (hrest : EndsItem d rest) :
    patternNames previous (some d) (ts ++ rest) = patternNames previous' none rest := by
  have hnest : nesting [] (ts.map Token.word) = some [] := hwords ▸ value.balanced
  refine patternNames_default ?_ hnest ?_ hrest
  · exact hplaced
  · exact fun _ _ hsplit => value.not_isBalanced_of_comma (hwords ▸ hsplit)

/-! ## Computed keys -/

/-- Whether tokens have the same words at depths that differ by `k`. -/
def Aligned (k : Nat) (ts us : List Token) : Prop :=
  List.Forall₂ (fun t u => t.word = u.word ∧ t.depth = u.depth + k) ts us

theorem aligned_standing (hplaced : Placed (d + stack.length) ts)
    (hwords : ts.map Token.word = words) (hnest : nesting stack words ≠ none) :
    Aligned d ts (standing stack.length words) := by
  induction ts generalizing stack words with
  | nil =>
    obtain rfl := hwords
    exact .nil
  | cons t ts ih =>
    obtain rfl := hwords
    obtain ⟨hdepth, hplaced⟩ := placed_cons.1 hplaced
    rw [List.map_cons, nesting_cons] at hnest
    cases hword : nest stack t.word with
    | none => simp [hword] at hnest
    | some inner =>
      rw [hword, Option.bind_some] at hnest
      rw [depthPast_of_nest hword] at hplaced
      rw [placeOf_add hword, Nat.add_comm] at hdepth
      have hpast := depthPast_of_nest hword 0
      rw [Nat.zero_add, Nat.zero_add] at hpast
      rw [List.map_cons, standing, hpast]
      exact .cons ⟨rfl, hdepth⟩ (ih hplaced rfl hnest)

/-- In brackets the names are found that are found without what is around them. -/
theorem patternNames_aligned (h : Aligned k ts us) (mode? : Option Nat)
    (hcloser : closer.isCloser = true) (hdeep : ∀ t ∈ ts, closer.depth < t.depth)
    (hmode : ∀ m ∈ mode?, closer.depth < m + k)
    (hprevious : previous.isPunctuator "." = previous'.isPunctuator ".") :
    patternNames previous (mode?.map (· + k)) (ts ++ closer :: rest) =
      patternNames previous' mode? us ++ patternNames closer none rest := by
  have hequals : closer.isPunctuator "=" = false :=
    Token.not_isPunctuator_of_isCloser hcloser (by decide)
  have hcolon : closer.isPunctuator ":" = false :=
    Token.not_isPunctuator_of_isCloser hcloser (by decide)
  induction h generalizing mode? previous previous' with
  | nil =>
    cases mode? with
    | none =>
      have hkind : closer.kind ≠ .name := by
        rw [(Token.isCloser_cases hcloser).1]
        decide
      exact patternNames_of_not_name hkind hequals
    | some m =>
      have hlt := hmode m rfl
      simp [patternNames, hlt]
  | @cons t u ts us htu hrest ih =>
    obtain ⟨hword, hdepth⟩ := htu
    obtain ⟨htop, hdeep⟩ := List.forall_mem_cons.1 hdeep
    have ih (mode? : Option Nat) (hmode : ∀ m ∈ mode?, closer.depth < m + k) :=
      ih mode? hdeep hmode (isPunctuator_congr hword ".")
    rw [List.cons_append]
    cases mode? with
    | some m =>
      have hends : (t.depth < m + k || (t.depth == m + k && t.isPunctuator ",")) =
          (u.depth < m || (u.depth == m && u.isPunctuator ",")) := by
        have hsame : (u.depth + k == m + k) = (u.depth == m) := by
          rw [Bool.eq_iff_iff]
          simp
        rw [isPunctuator_congr hword, hdepth, hsame]
        simp
      rw [Option.map_some, patternNames, patternNames, hends]
      split
      · exact ih none (by rintro m ⟨⟩)
      · exact ih (some m) hmode
    | none =>
      have hnext : (ts ++ closer :: rest).head?.any (·.isPunctuator ":") =
          us.head?.any (·.isPunctuator ":") := by
        cases hrest with
        | nil => simp [hcolon]
        | cons htu _ => simp [isPunctuator_congr htu.1]
      have hkind : t.kind = u.kind := congrArg Prod.fst hword
      have htext : t.text = u.text := congrArg Prod.snd hword
      rw [Option.map_none, patternNames, patternNames, isPunctuator_congr hword, hkind, htext,
        hnext, hprevious]
      split
      · rw [hdepth]
        exact ih (some u.depth) (by rintro m ⟨⟩; omega)
      · split
        · exact congrArg (u.text :: ·) (ih none (by rintro m ⟨⟩))
        · exact ih none (by rintro m ⟨⟩)

/-- What a computed key lets through. -/
theorem Operand.patternNames_computed (value : Operand) (hopener : opener.word = mark "[")
    (hwords : ts.map Token.word = value.words) (hplaced : Placed (d + 1) ts)
    (hcloser : closer.isCloser = true) (hdepth : closer.depth = d) :
    patternNames opener none (ts ++ closer :: rest) =
      value.exposed ++ patternNames closer none rest := by
  have hbalanced : IsBalanced (ts.map Token.word) := hwords ▸ value.balanced
  have haligned : Aligned (d + 1) ts (standing ([] : List Bracket).length value.words) := by
    refine aligned_standing hplaced hwords ?_
    rw [value.balanced]
    exact Option.some_ne_none _
  refine patternNames_aligned haligned none hcloser ?_ (by rintro m ⟨⟩) ?_
  · intro t ht
    have := hplaced.le_of_isBalanced hbalanced t ht
    omega
  · rw [isPunctuator_of_word hopener]
    decide

/-! ## The brackets of a pattern -/

theorem PatternKind.isPair (kind : PatternKind) :
    ∃ bracket, IsPair (mark kind.opener) (mark kind.closer) bracket := by
  cases kind
  · exact ⟨.brace, by decide, by decide, by decide, by decide, rfl, rfl⟩
  · exact ⟨.square, by decide, by decide, by decide, by decide, rfl, rfl⟩

theorem IsLiteralWord.isPlain {w : Word} (h : IsLiteralWord w) :
    closedBy w = none ∧ openedBy w = none ∧ w.1 ≠ .name ∧ w ≠ mark "=" := by
  obtain ⟨kind, text⟩ := w
  rcases h with h | h | h | h
  · obtain rfl : kind = .string := h
    simp [closedBy, openedBy, mark]
  · obtain rfl : kind = .number := h
    simp [closedBy, openedBy, mark]
  · rw [h]
    decide
  · rw [h]
    decide

theorem isBalanced_literal (h : ∀ w ∈ words, IsLiteralWord w) : IsBalanced words := by
  induction words with
  | nil => exact isBalanced_nil
  | cons w words ih =>
    obtain ⟨hw, hwords⟩ := List.forall_mem_cons.1 h
    exact (ih hwords).cons hw.isPlain.1 hw.isPlain.2.1

theorem Key.isBalanced (key : Key) : IsBalanced key.words := by
  cases key with
  | name text => exact isBalanced_name text
  | literal words h => exact isBalanced_literal h
  | computed value =>
    exact value.balanced.enclose isPair_square.closed isPair_square.opened isPair_square.closes
      isPair_square.ends

theorem isBalanced_defaultWords (default? : Option Operand) :
    IsBalanced (defaultWords default?) := by
  cases default? with
  | none => exact isBalanced_nil
  | some value => exact value.balanced.cons (by decide) (by decide)

mutual

theorem Pattern.isBalanced : (p : Pattern) → IsBalanced p.words
  | .name text => by
    rw [Pattern.words]
    exact isBalanced_name text
  | .group kind items => by
    obtain ⟨bracket, hpair⟩ := kind.isPair
    rw [Pattern.words]
    exact items.isBalanced.enclose hpair.closed hpair.opened hpair.closes hpair.ends

theorem Items.isBalanced : (items : Items) → IsBalanced items.words
  | .last item => by
    rw [Items.words]
    exact item.isBalanced
  | .more item others => by
    rw [Items.words]
    exact item.isBalanced.append (others.isBalanced.cons (by decide) (by decide))

theorem Item.isBalanced : (item : Item) → IsBalanced item.words
  | .hole => by
    rw [Item.words]
    exact isBalanced_nil
  | .element target default? => by
    rw [Item.words]
    exact target.isBalanced.append (isBalanced_defaultWords default?)
  | .property key target default? => by
    rw [Item.words]
    have htarget := target.isBalanced.append (isBalanced_defaultWords default?)
    exact key.isBalanced.append (htarget.cons (by decide) (by decide))
  | .rest target => by
    rw [Item.words]
    exact target.isBalanced.cons (by decide) (by decide)

end

/-! ## Reading a pattern -/

theorem patternNames_literal (h : ∀ w ∈ ts.map Token.word, IsLiteralWord w)
    (hu : u.word = mark ":") :
    patternNames previous none (ts ++ u :: rest) = patternNames u none rest := by
  induction ts generalizing previous with
  | nil => exact patternNames_mark hu (by decide)
  | cons t ts ih =>
    obtain ⟨ht, hts⟩ := List.forall_mem_cons.1 h
    obtain ⟨-, -, hkind, hequals⟩ := ht.isPlain
    have hsign : t.isPunctuator "=" = false := by
      rw [Bool.eq_false_iff]
      intro hsign
      exact hequals (by simpa [Token.isPunctuator, Token.word, mark] using hsign)
    rw [List.cons_append, patternNames_of_not_name hkind hsign, ih hts]

/-- What a key gives, in front of its colon. -/
theorem Key.patternNames_eq (key : Key) (hwords : ts.map Token.word = key.words)
    (hplaced : Placed d (ts ++ u :: rest)) (hu : u.word = mark ":") :
    patternNames previous none (ts ++ u :: rest) =
      key.namesWith Operand.exposed ++ patternNames u none rest := by
  cases key with
  | name text =>
    obtain ⟨t, nothing, rfl, ht, hnothing⟩ := List.map_eq_cons_iff.1 hwords
    obtain rfl := List.map_eq_nil_iff.1 hnothing
    have hcolon : u.isPunctuator ":" = true := by
      rw [isPunctuator_of_word hu]
      rfl
    rw [List.singleton_append, patternNames_key (Prod.mk.inj ht).1 hcolon,
      patternNames_mark hu (by decide)]
    rfl
  | literal words h => exact patternNames_literal (hwords ▸ h) hu
  | computed value =>
    obtain ⟨opener, us, closer, rfl, hopener, hus, hcloser⟩ := exists_enclosed hwords
    rw [List.cons_append, List.append_assoc, List.singleton_append] at hplaced ⊢
    obtain ⟨-, -, hinside, hdepth, -⟩ :=
      Placed.enclosed (hopener ▸ hcloser ▸ isPair_square) hplaced (hus ▸ value.balanced)
    have hcloses : closer.isCloser = true := by
      simp [Token.isCloser, isPunctuator_of_word hcloser]
    rw [patternNames_mark hopener (by decide),
      value.patternNames_computed hopener hus hinside hcloses hdepth,
      patternNames_mark hu (by decide)]
    rfl

/-- A default value gives no names. -/
theorem patternNames_defaultWords (previous : Token) (default? : Option Operand)
    (hwords : ts.map Token.word = defaultWords default?) (hplaced : Placed d (ts ++ rest))
    (hrest : EndsItem d rest) :
    EndsName (ts ++ rest) ∧
      patternNames previous none (ts ++ rest) = patternNames previous none rest := by
  cases default? with
  | none =>
    obtain rfl := List.map_eq_nil_iff.1 hwords
    exact ⟨hrest.endsName, rfl⟩
  | some value =>
    obtain ⟨t, us, rfl, ht, hus⟩ := List.map_eq_cons_iff.1 hwords
    obtain ⟨hdepth, hplaced⟩ := placed_cons.1 hplaced
    rw [ht, placeOf_of_not_template (by decide) (by decide)] at hdepth
    rw [ht, depthPast_of_plain (by decide) (by decide)] at hplaced
    obtain ⟨hfront, -⟩ := hplaced.of_append (hus ▸ value.balanced)
    have hequals : t.isPunctuator "=" = true := by
      rw [isPunctuator_of_word ht]
      rfl
    refine ⟨?_, ?_⟩
    · rintro t' ⟨⟩
      refine ⟨?_, ?_⟩
      · rw [(Prod.mk.inj ht).1]
        decide
      · rw [isPunctuator_of_word ht]
        decide
    · rw [List.cons_append, patternNames, if_pos hequals, hdepth]
      exact value.patternNames_eq hus hfront hrest

mutual

/-- A pattern gives the names that are found in it, whatever comes behind. -/
theorem Pattern.patternNames_eq (p : Pattern) {d : Nat} {previous : Token} {ts rest : List Token}
    (hwords : ts.map Token.word = p.words) (hplaced : Placed d (ts ++ rest))
    (hprevious : previous.isPunctuator "." = false) (hrest : EndsName rest) :
    patternNames previous none (ts ++ rest) =
      p.namesWith Operand.exposed ++ patternNames previous none rest := by
  cases p with
  | name text =>
    rw [Pattern.words] at hwords
    obtain ⟨t, nothing, rfl, ht, hnothing⟩ := List.map_eq_cons_iff.1 hwords
    obtain rfl := List.map_eq_nil_iff.1 hnothing
    obtain ⟨hkind, rfl⟩ := Prod.mk.inj ht
    rw [List.singleton_append, patternNames_name hkind hrest hprevious,
      hrest.patternNames_eq t previous, Pattern.namesWith]
    rfl
  | group kind items =>
    rw [Pattern.words] at hwords
    obtain ⟨bracket, hpair⟩ := kind.isPair
    obtain ⟨opener, us, closer, rfl, hopener, hus, hcloser⟩ := exists_enclosed hwords
    rw [List.cons_append, List.append_assoc, List.singleton_append] at hplaced ⊢
    obtain ⟨-, hinside, -, hdepth, -⟩ :=
      Placed.enclosed (hopener ▸ hcloser ▸ hpair) hplaced (hus ▸ items.isBalanced)
    have hopens : kind.opener ≠ "=" ∧ kind.opener ≠ "." ∧ kind.closer ≠ "=" := by
      cases kind <;> decide
    have hends : EndsItem (d + 1) (closer :: rest) := by
      rintro t ⟨⟩
      refine Or.inr ⟨?_, by omega⟩
      cases kind <;> simp [Token.isCloser, isPunctuator_of_word hcloser, PatternKind.closer]
    have hprevious' : opener.isPunctuator "." = false := by
      rw [isPunctuator_of_word hopener]
      exact beq_eq_false_iff_ne.2 hopens.2.1
    rw [patternNames_mark hopener hopens.1, items.patternNames_eq hus hinside hprevious' hends,
      patternNames_mark hcloser hopens.2.2, hrest.patternNames_eq closer previous,
      Pattern.namesWith]

theorem Items.patternNames_eq (items : Items) {d : Nat} {previous : Token} {ts rest : List Token}
    (hwords : ts.map Token.word = items.words) (hplaced : Placed d (ts ++ rest))
    (hprevious : previous.isPunctuator "." = false) (hrest : EndsItem d rest) :
    patternNames previous none (ts ++ rest) =
      items.namesWith Operand.exposed ++ patternNames previous none rest := by
  cases items with
  | last item =>
    rw [Items.words] at hwords
    rw [Items.namesWith]
    exact item.patternNames_eq hwords hplaced hprevious hrest
  | more item others =>
    rw [Items.words] at hwords
    obtain ⟨us, vs, rfl, hus, hvs⟩ := List.map_eq_append_iff.1 hwords
    obtain ⟨comma, vs, rfl, hcomma, hvs⟩ := List.map_eq_cons_iff.1 hvs
    rw [List.append_assoc, List.cons_append] at hplaced ⊢
    obtain ⟨hdepth, hback⟩ := placed_cons.1 (hplaced.of_append (hus ▸ item.isBalanced)).2
    rw [hcomma, placeOf_of_not_template (by decide) (by decide)] at hdepth
    rw [hcomma, depthPast_of_plain (by decide) (by decide)] at hback
    have hends : EndsItem d (comma :: (vs ++ rest)) := by
      rintro t ⟨⟩
      exact Or.inl ⟨by rw [isPunctuator_of_word hcomma]; rfl, hdepth⟩
    have hprevious' : comma.isPunctuator "." = false := by
      rw [isPunctuator_of_word hcomma]
      decide
    rw [item.patternNames_eq hus hplaced hprevious hends, patternNames_mark hcomma (by decide),
      others.patternNames_eq hvs hback hprevious' hrest, Items.namesWith, List.append_assoc,
      hrest.endsName.patternNames_eq comma previous]

theorem Item.patternNames_eq (item : Item) {d : Nat} {previous : Token} {ts rest : List Token}
    (hwords : ts.map Token.word = item.words) (hplaced : Placed d (ts ++ rest))
    (hprevious : previous.isPunctuator "." = false) (hrest : EndsItem d rest) :
    patternNames previous none (ts ++ rest) =
      item.namesWith Operand.exposed ++ patternNames previous none rest := by
  cases item with
  | hole =>
    rw [Item.words] at hwords
    obtain rfl := List.map_eq_nil_iff.1 hwords
    rw [Item.namesWith]
    rfl
  | element target default? =>
    rw [Item.words] at hwords
    obtain ⟨us, vs, rfl, hus, hvs⟩ := List.map_eq_append_iff.1 hwords
    rw [List.append_assoc] at hplaced ⊢
    obtain ⟨hname, hdefault⟩ := patternNames_defaultWords previous default? hvs
      (hplaced.of_append (hus ▸ target.isBalanced)).2 hrest
    rw [target.patternNames_eq hus hplaced hprevious hname, hdefault, Item.namesWith]
  | property key target default? =>
    rw [Item.words] at hwords
    obtain ⟨ks, us, rfl, hks, hus⟩ := List.map_eq_append_iff.1 hwords
    obtain ⟨colon, us, rfl, hcolon, hus⟩ := List.map_eq_cons_iff.1 hus
    obtain ⟨us, vs, rfl, hus, hvs⟩ := List.map_eq_append_iff.1 hus
    rw [List.append_assoc, List.cons_append, List.append_assoc] at hplaced ⊢
    obtain ⟨-, hback⟩ := placed_cons.1 (hplaced.of_append (hks ▸ key.isBalanced)).2
    rw [hcolon, depthPast_of_plain (by decide) (by decide)] at hback
    obtain ⟨hname, hdefault⟩ := patternNames_defaultWords colon default? hvs
      (hback.of_append (hus ▸ target.isBalanced)).2 hrest
    have hprevious' : colon.isPunctuator "." = false := by
      rw [isPunctuator_of_word hcolon]
      decide
    rw [key.patternNames_eq hks hplaced hcolon,
      target.patternNames_eq hus hback hprevious' hname, hdefault, Item.namesWith,
      List.append_assoc, hrest.endsName.patternNames_eq colon previous]
  | rest target =>
    rw [Item.words] at hwords
    obtain ⟨dots, us, rfl, hdots, hus⟩ := List.map_eq_cons_iff.1 hwords
    obtain ⟨-, hback⟩ := placed_cons.1 hplaced
    rw [hdots, depthPast_of_plain (by decide) (by decide)] at hback
    have hprevious' : dots.isPunctuator "." = false := by
      rw [isPunctuator_of_word hdots]
      decide
    rw [List.cons_append, patternNames_mark hdots (by decide),
      target.patternNames_eq hus hback hprevious' hrest.endsName, Item.namesWith,
      hrest.endsName.patternNames_eq dots previous]

end

end ModuleBundler.Script
