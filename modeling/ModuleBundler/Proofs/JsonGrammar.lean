import Mathlib.Data.List.Forall2
import ModuleBundler.Json.Read
import ModuleBundler.Json.Value
import ModuleBundler.Proofs.Escapes

/-
  The grammar of JSON texts, apart from the readers. It comes twice: as what a text spells
  (`SpellsValue`), for the values that are written here, and as what a text of any value looks like
  (`IsValue`), with all numbers, and with strings that may hold the halves of pairs alone. In both,
  blanks stand between any two parts, a character may be spelled by any of its escapes, and lists
  and objects are parts with gaps between them (`Parts`). Both written forms of a value are texts of
  the first kind (`spellsValue_compact`, `spellsValue_pretty`).
-/

namespace ModuleBundler.Json

open Script (IsHex hexNumber)

variable {α κ : Type} {c : Char} {ws text rest : List Char}

/-! ## Blanks and gaps -/

/-- Whether a text has blanks only. -/
def Blank (text : List Char) : Prop := ∀ c ∈ text, isBlank c = true

instance : DecidablePred Blank := fun text =>
  decidable_of_iff (text.all isBlank = true) List.all_eq_true

theorem blank_nil : Blank [] := fun _ hc => absurd hc List.not_mem_nil

/-- What stands in front of a part of a list or an object: before the first part nothing but
blanks, and before any other a comma among blanks. -/
inductive Gap : Bool → List Char → Prop
  | first {ws : List Char} (h : Blank ws) : Gap true ws
  | later {before after : List Char} (hbefore : Blank before) (hafter : Blank after) :
    Gap false (before ++ ',' :: after)

/-- Parts with gaps in front of them, and blanks behind the last one. -/
inductive Parts (part : α → List Char → Prop) : Bool → List α → List Char → Prop
  | nil {first : Bool} {ws : List Char} (h : Blank ws) : Parts part first [] ws
  | cons {first : Bool} {a : α} {as : List α} {gap text rest : List Char} (hgap : Gap first gap)
    (hpart : part a text) (hparts : Parts part false as rest) :
    Parts part first (a :: as) (gap ++ (text ++ rest))

/-- A key and a value with a colon between them. -/
inductive Member (key : κ → List Char → Prop) (value : α → List Char → Prop) :
    κ × α → List Char → Prop
  | mk {k : κ} {a : α} {name before after text : List Char} (hkey : key k name)
    (hbefore : Blank before) (hafter : Blank after) (hvalue : value a text) :
    Member key value (k, a) (name ++ (before ++ ':' :: (after ++ text)))

/-! ## Strings -/

/-- The letters behind a backslash, with the characters that they stand for. -/
def escapeLetters : List (Char × Char) :=
  [('"', '"'), ('\\', '\\'), ('/', '/'), ('b', '\x08'), ('f', '\x0c'), ('n', '\n'), ('r', '\r'),
    ('t', '\t')]

/-- Whether a character stands for itself in a string. -/
def IsPlain (c : Char) : Prop := c ≠ '"' ∧ c ≠ '\\' ∧ 0x20 ≤ c.toNat

instance : DecidablePred IsPlain := fun _ => inferInstanceAs (Decidable (_ ∧ _ ∧ _))

/-- Whether a text in a string stands for a character. -/
inductive SpellsChar : Char → List Char → Prop
  | plain {c : Char} (h : IsPlain c) : SpellsChar c [c]
  | letter {letter c : Char} (h : (letter, c) ∈ escapeLetters) : SpellsChar c ['\\', letter]
  | unit {ds : List Char} (hhex : IsHex 4 ds)
    (hscalar : hexNumber ds < 0xd800 ∨ 0xdfff < hexNumber ds) :
    SpellsChar (Char.ofNat (hexNumber ds)) ('\\' :: 'u' :: ds)
  | pair {high low : List Char} (hhigh : IsHex 4 high) (hlow : IsHex 4 low)
    (hfirst : 0xd800 ≤ hexNumber high ∧ hexNumber high ≤ 0xdbff)
    (hsecond : 0xdc00 ≤ hexNumber low ∧ hexNumber low ≤ 0xdfff) :
    SpellsChar
      (Char.ofNat (0x10000 + (hexNumber high - 0xd800) * 0x400 + (hexNumber low - 0xdc00)))
      ('\\' :: 'u' :: (high ++ '\\' :: 'u' :: low))

/-- Whether the text between two quotes stands for characters. -/
inductive SpellsChars : List Char → List Char → Prop
  | nil : SpellsChars [] []
  | cons {c : Char} {cs text rest : List Char} (hchar : SpellsChar c text)
    (hchars : SpellsChars cs rest) : SpellsChars (c :: cs) (text ++ rest)

/-- Whether a text between quotes stands for a string. -/
inductive SpellsString : String → List Char → Prop
  | mk {value : String} {body : List Char} (h : SpellsChars value.toList body) :
    SpellsString value ('"' :: (body ++ ['"']))

/-- Whether a text may stand in a string. It need not stand for a character, but may be half of a
pair. -/
inductive IsPiece : List Char → Prop
  | plain {c : Char} (h : IsPlain c) : IsPiece [c]
  | letter {letter : Char} (h : letter ∈ escapeLetters.map (·.1)) : IsPiece ['\\', letter]
  | unit {ds : List Char} (h : IsHex 4 ds) : IsPiece ('\\' :: 'u' :: ds)

/-- Whether a text may stand between two quotes. -/
inductive IsBody : List Char → Prop
  | nil : IsBody []
  | cons {text rest : List Char} (hpiece : IsPiece text) (hbody : IsBody rest) :
    IsBody (text ++ rest)

/-- Whether a text is that of a string. -/
inductive IsString : List Char → Prop
  | mk {body : List Char} (h : IsBody body) : IsString ('"' :: (body ++ ['"']))

/-! ## Numbers -/

/-- Whether a text has digits only, and at least one. -/
def IsDigits (ds : List Char) : Prop := ds ≠ [] ∧ ∀ d ∈ ds, d.isDigit = true

instance : DecidablePred IsDigits := fun ds =>
  decidable_of_iff (ds ≠ [] ∧ ds.all Char.isDigit = true) (and_congr_right' List.all_eq_true)

/-- Whether a text is that of a natural number: digits with no zero in front of others. -/
def IsNatural (ds : List Char) : Prop := IsDigits ds ∧ (ds.head? = some '0' → ds.length = 1)

instance : DecidablePred IsNatural := fun _ => inferInstanceAs (Decidable (_ ∧ (_ → _)))

/-- Whether a text is that of the decimals of a number. -/
inductive IsFraction : List Char → Prop
  | none : IsFraction []
  | some {ds : List Char} (h : IsDigits ds) : IsFraction ('.' :: ds)

/-- Whether a text is that of the power of ten that a number is taken times. -/
inductive IsExponent : List Char → Prop
  | none : IsExponent []
  | some {mark : Char} {sign ds : List Char} (hmark : mark ∈ ['e', 'E'])
    (hsign : sign ∈ [[], ['+'], ['-']]) (h : IsDigits ds) : IsExponent (mark :: (sign ++ ds))

/-- Whether a text is that of a number without a sign. -/
inductive IsUnsigned : List Char → Prop
  | mk {whole fraction exponent : List Char} (hwhole : IsNatural whole)
    (hfraction : IsFraction fraction) (hexponent : IsExponent exponent) :
    IsUnsigned (whole ++ (fraction ++ exponent))

/-! ## Values -/

/-- Whether a text spells a value. -/
inductive SpellsValue : Json → List Char → Prop
  | null : SpellsValue .null ['n', 'u', 'l', 'l']
  | yes : SpellsValue (.bool true) ['t', 'r', 'u', 'e']
  | no : SpellsValue (.bool false) ['f', 'a', 'l', 's', 'e']
  | number {n : Nat} : SpellsValue (.number n) (Nat.toDigits 10 n)
  | string {value : String} {text : List Char} (h : SpellsString value text) :
    SpellsValue (.string value) text
  | list {items : List Json} {text : List Char} (h : Parts SpellsValue true items text) :
    SpellsValue (.list items) ('[' :: (text ++ [']']))
  | object {members : List (String × Json)} {text : List Char}
    (h : Parts (Member SpellsString SpellsValue) true members text) :
    SpellsValue (.object members) ('{' :: (text ++ ['}']))

/-- Whether a text is that of any value. -/
inductive IsValue : List Char → Prop
  | word {word : String} (h : word ∈ ["null", "true", "false"]) : IsValue word.toList
  | unsigned {text : List Char} (h : IsUnsigned text) : IsValue text
  | negative {text : List Char} (h : IsUnsigned text) : IsValue ('-' :: text)
  | string {text : List Char} (h : IsString text) : IsValue text
  | list {items : List Unit} {text : List Char}
    (h : Parts (fun _ : Unit => IsValue) true items text) : IsValue ('[' :: (text ++ [']']))
  | object {members : List (Unit × Unit)} {text : List Char}
    (h : Parts (Member (fun _ : Unit => IsString) fun _ : Unit => IsValue) true members text) :
    IsValue ('{' :: (text ++ ['}']))

/-! ## What comes first -/

/-- A character that begins a value. -/
def startsValue (c : Char) : Bool := !isBlank c && c != ']' && c != '}'

/-- Whether a text begins like a value. -/
def Begins (text : List Char) : Prop := ∃ c cs, text = c :: cs ∧ startsValue c = true

theorem startsValue_of_isDigit (h : c.isDigit = true) : startsValue c = true := by
  have hne : ∀ d : Char, d.isDigit = false → (c == d) = false := by
    intro d hd
    rw [beq_eq_false_iff_ne]
    rintro rfl
    rw [h] at hd
    cases hd
  rw [startsValue, isBlank, bne, bne, hne ' ' rfl, hne '\n' rfl, hne '\t' rfl, hne '\r' rfl,
    hne ']' rfl, hne '}' rfl]
  rfl

theorem IsDigits.exists_digit (h : IsDigits text) (rest : List Char) :
    ∃ d ds, text ++ rest = d :: ds ∧ d.isDigit = true := by
  obtain ⟨d, ds, rfl⟩ := List.exists_cons_of_ne_nil h.1
  exact ⟨d, ds ++ rest, rfl, h.2 d List.mem_cons_self⟩

theorem isDigits_toDigits (n : Nat) : IsDigits (Nat.toDigits 10 n) :=
  ⟨Nat.toDigits_ne_nil, fun _ hd => Nat.isDigit_of_mem_toDigits (by decide) (by decide) hd⟩

theorem exists_digit (n : Nat) : ∃ d ds, Nat.toDigits 10 n = d :: ds ∧ d.isDigit = true := by
  obtain ⟨d, ds, hchars, hdigit⟩ := (isDigits_toDigits n).exists_digit []
  exact ⟨d, ds, (List.append_nil _).symm.trans hchars, hdigit⟩

theorem SpellsString.begins {value : String} (h : SpellsString value text) : Begins text := by
  cases h with
  | mk _ => exact ⟨'"', _, rfl, rfl⟩

theorem IsString.begins (h : IsString text) : Begins text := by
  cases h with
  | mk _ => exact ⟨'"', _, rfl, rfl⟩

theorem SpellsValue.begins {v : Json} (h : SpellsValue v text) : Begins text := by
  cases h with
  | null => exact ⟨'n', _, rfl, rfl⟩
  | yes => exact ⟨'t', _, rfl, rfl⟩
  | no => exact ⟨'f', _, rfl, rfl⟩
  | @number n =>
    obtain ⟨d, ds, hchars, hdigit⟩ := exists_digit n
    exact ⟨d, ds, hchars, startsValue_of_isDigit hdigit⟩
  | string h => exact h.begins
  | list _ => exact ⟨'[', _, rfl, rfl⟩
  | object _ => exact ⟨'{', _, rfl, rfl⟩

theorem IsUnsigned.exists_digit (h : IsUnsigned text) :
    ∃ d ds, text = d :: ds ∧ d.isDigit = true := by
  obtain ⟨hwhole, _, _⟩ := h
  exact hwhole.1.exists_digit _

theorem IsUnsigned.begins (h : IsUnsigned text) : Begins text := by
  obtain ⟨d, ds, htext, hdigit⟩ := h.exists_digit
  exact ⟨d, ds, htext, startsValue_of_isDigit hdigit⟩

theorem IsValue.begins (h : IsValue text) : Begins text := by
  cases h with
  | word h =>
    simp only [List.mem_cons, List.not_mem_nil, or_false] at h
    rcases h with rfl | rfl | rfl
    · exact ⟨'n', _, rfl, rfl⟩
    · exact ⟨'t', _, rfl, rfl⟩
    · exact ⟨'f', _, rfl, rfl⟩
  | unsigned h => exact h.begins
  | negative _ => exact ⟨'-', _, rfl, rfl⟩
  | string h => exact h.begins
  | list _ => exact ⟨'[', _, rfl, rfl⟩
  | object _ => exact ⟨'{', _, rfl, rfl⟩

/-! ## What comes behind -/

/-- A character that ends a number. -/
def endsNumber (c : Char) : Bool := !c.isDigit && c != '.' && c != 'e' && c != 'E'

/-- Whether a text begins with what ends a number, or is empty. -/
def EndsNumber (rest : List Char) : Prop := ∀ c ∈ rest.head?, endsNumber c = true

theorem endsNumber_cons (h : endsNumber c = true) (cs : List Char) : EndsNumber (c :: cs) := by
  intro d hd
  obtain rfl := Option.some.inj hd
  exact h

theorem endsNumber_of_isBlank (h : isBlank c = true) : endsNumber c = true := by
  simp only [isBlank, Bool.or_eq_true, beq_iff_eq] at h
  rcases h with ((rfl | rfl) | rfl) | rfl <;> rfl

theorem Blank.endsNumber (h : Blank ws) (hrest : EndsNumber rest) : EndsNumber (ws ++ rest) := by
  cases ws with
  | nil => exact hrest
  | cons c ws => exact endsNumber_cons (endsNumber_of_isBlank (h c List.mem_cons_self)) _

/-- What follows a part of a list or an object ends a number. -/
theorem Parts.endsNumber {part : α → List Char → Prop} {as : List α}
    (h : Parts part false as text) (hrest : EndsNumber rest) : EndsNumber (text ++ rest) := by
  cases h with
  | nil hws => exact hws.endsNumber hrest
  | cons hgap _ _ =>
    cases hgap with
    | later hbefore _ =>
      rw [List.append_assoc, List.append_assoc]
      exact hbefore.endsNumber (endsNumber_cons rfl _)

/-! ## Written forms -/

theorem isHex_control {n : Nat} (h : n < 0x20) :
    IsHex 4 ['0', '0', Nat.digitChar (n / 16), Nat.digitChar (n % 16)] ∧
      hexNumber ['0', '0', Nat.digitChar (n / 16), Nat.digitChar (n % 16)] = n := by
  have hall : ∀ k : Fin 0x20, IsHex 4 ['0', '0', Nat.digitChar (k / 16), Nat.digitChar (k % 16)] ∧
      hexNumber ['0', '0', Nat.digitChar (k / 16), Nat.digitChar (k % 16)] = k := by decide
  exact hall ⟨n, h⟩

theorem spellsChar_escapedChar (c : Char) : SpellsChar c (escapedChar c) := by
  unfold escapedChar
  split
  iterate 7 exact .letter (by decide)
  next hquote hback _ _ _ _ _ =>
    split
    · next hcontrol =>
      obtain ⟨hhex, hnumber⟩ := isHex_control hcontrol
      have hunit := SpellsChar.unit hhex (by omega)
      rwa [hnumber, Char.ofNat_toNat] at hunit
    · next hcontrol => exact .plain ⟨hquote, hback, Nat.le_of_not_lt hcontrol⟩

theorem spellsChars_escaped (value : List Char) :
    SpellsChars value (value.flatMap escapedChar) := by
  induction value with
  | nil => exact .nil
  | cons c value ih =>
    rw [List.flatMap_cons]
    exact .cons (spellsChar_escapedChar c) ih

theorem spellsString_quote (value : String) : SpellsString value (quote value).toList := by
  rw [quote, String.toList_ofList]
  exact .mk (spellsChars_escaped _)

/-- The text in front of a part of a list or an object: a comma, if it is not the first. -/
def separator (first : Bool) : List Char := if first then [] else [',']

/-- Parts with their separators. -/
def separated (first : Bool) : List String → List Char
  | [] => []
  | part :: parts => separator first ++ (part.toList ++ separated false parts)

theorem toList_intercalate_comma (parts : List String) :
    (",".intercalate parts).toList = separated true parts := by
  induction parts with
  | nil => rfl
  | cons part parts ih =>
    cases parts with
    | nil =>
      show part.toList = [] ++ (part.toList ++ [])
      rw [List.append_nil, List.nil_append]
    | cons next parts =>
      rw [String.intercalate_cons_cons, String.toList_append, String.toList_append, ih]
      show _ = [] ++ (part.toList ++ ([','] ++ (next.toList ++ separated false parts)))
      rw [List.nil_append, List.append_assoc]
      rfl

/-- Whether a text is a part behind blanks. -/
def Indents (part : α → List Char → Prop) (a : α) (text : String) : Prop :=
  ∃ ws chars, Blank ws ∧ part a chars ∧ text.toList = ws ++ chars

theorem parts_separated {part : α → List Char → Prop} {as : List α} {texts : List String}
    (h : List.Forall₂ (Indents part) as texts) (hws : Blank ws) (first : Bool) :
    Parts part first as (separated first texts ++ ws) := by
  induction h generalizing first with
  | nil => exact .nil hws
  | cons hhead _ ih =>
    obtain ⟨before, chars, hbefore, hpart, htext⟩ := hhead
    have hgap : Gap first (separator first ++ before) := by
      cases first with
      | true => exact .first hbefore
      | false => exact .later blank_nil hbefore
    have hparts := Parts.cons hgap hpart (ih false)
    rw [List.append_assoc] at hparts
    rwa [separated, htext, List.append_assoc, List.append_assoc, List.append_assoc]

theorem parts_intercalate {part : α → List Char → Prop} {as : List α} {texts : List String}
    (h : List.Forall₂ (fun a text => part a text.toList) as texts) :
    Parts part true as (",".intercalate texts).toList := by
  have hindents : List.Forall₂ (Indents part) as texts :=
    h.imp fun a text hpart => ⟨[], text.toList, blank_nil, hpart, rfl⟩
  have hparts := parts_separated hindents blank_nil true
  rwa [List.append_nil, ← toList_intercalate_comma] at hparts

theorem blank_lineBreak (indent : Nat) : Blank (lineBreak indent).toList := by
  intro c hc
  rw [lineBreak, String.toList_ofList, List.mem_cons, List.mem_replicate] at hc
  rcases hc with rfl | ⟨-, rfl⟩ <;> rfl

/-- A block is parts between brackets. -/
theorem parts_block {part : α → List Char → Prop} {as : List α} {texts : List String}
    (h : List.Forall₂ (fun a text => part a text.toList) as texts) (opener closer : String)
    (indent : Nat) : ∃ body, Parts part true as body ∧
      (block opener closer indent texts).toList = opener.toList ++ (body ++ closer.toList) := by
  cases h with
  | nil => exact ⟨[], .nil blank_nil, by rw [block, List.nil_append]; exact String.toList_append⟩
  | cons hhead htail =>
    rename_i a text as texts
    have hindents : List.Forall₂ (Indents part) (a :: as)
        ((text :: texts).map (lineBreak (indent + 1) ++ ·)) := by
      rw [List.forall₂_map_right_iff]
      have hall : List.Forall₂ (fun a text => part a text.toList) (a :: as) (text :: texts) :=
        .cons hhead htail
      exact hall.imp fun a text hpart =>
        ⟨_, _, blank_lineBreak _, hpart, String.toList_append⟩
    refine ⟨_, parts_separated hindents (blank_lineBreak indent) true, ?_⟩
    rw [block, if_neg (by simp), String.toList_append, String.toList_append, String.toList_append,
      toList_intercalate_comma, List.append_assoc, List.append_assoc, List.append_assoc]

mutual

/-- A value is spelled by its form on one line. -/
theorem spellsValue_compact (v : Json) : SpellsValue v v.compact.toList := by
  match v with
  | .null => exact .null
  | .bool true => exact .yes
  | .bool false => exact .no
  | .number n =>
    have htext : (number n).compact.toList = Nat.toDigits 10 n := Nat.toList_repr
    rw [htext]
    exact .number
  | .string value => exact .string (spellsString_quote value)
  | .list items =>
    rw [compact, String.toList_append, String.toList_append, List.append_assoc]
    exact .list (parts_intercalate (spells_compactItems items))
  | .object members =>
    rw [compact, String.toList_append, String.toList_append, List.append_assoc]
    exact .object (parts_intercalate (spells_compactMembers members))

theorem spells_compactItems (items : List Json) :
    List.Forall₂ (fun v text => SpellsValue v text.toList) items (compactItems items) := by
  match items with
  | [] => exact .nil
  | v :: vs => exact .cons (spellsValue_compact v) (spells_compactItems vs)

theorem spells_compactMembers (members : List (String × Json)) :
    List.Forall₂ (fun m text => Member SpellsString SpellsValue m text.toList) members
      (compactMembers members) := by
  match members with
  | [] => exact .nil
  | (key, v) :: members =>
    refine .cons ?_ (spells_compactMembers members)
    have hmember := Member.mk (spellsString_quote key) blank_nil blank_nil (spellsValue_compact v)
    have hcolon : ":".toList = [':'] := rfl
    rwa [String.toList_append, String.toList_append, List.append_assoc, hcolon]

end

mutual

/-- A value is spelled by its indented form. -/
theorem spellsValue_pretty (v : Json) (indent : Nat) : SpellsValue v (v.pretty indent).toList := by
  match v with
  | .null =>
    rw [pretty]
    exact .null
  | .bool true =>
    rw [pretty]
    exact .yes
  | .bool false =>
    rw [pretty]
    exact .no
  | .number n =>
    have htext : ((number n).pretty indent).toList = Nat.toDigits 10 n := Nat.toList_repr
    rw [htext]
    exact .number
  | .string value => exact .string (spellsString_quote value)
  | .list items =>
    obtain ⟨body, hbody, htext⟩ :=
      parts_block (spells_prettyItems items (indent + 1)) "[" "]" indent
    rw [pretty, htext]
    exact .list hbody
  | .object members =>
    obtain ⟨body, hbody, htext⟩ :=
      parts_block (spells_prettyMembers members (indent + 1)) "\x7b" "\x7d" indent
    rw [pretty, htext]
    exact .object hbody

theorem spells_prettyItems (items : List Json) (indent : Nat) :
    List.Forall₂ (fun v text => SpellsValue v text.toList) items (prettyItems indent items) := by
  match items with
  | [] => exact .nil
  | v :: vs => exact .cons (spellsValue_pretty v indent) (spells_prettyItems vs indent)

theorem spells_prettyMembers (members : List (String × Json)) (indent : Nat) :
    List.Forall₂ (fun m text => Member SpellsString SpellsValue m text.toList) members
      (prettyMembers indent members) := by
  match members with
  | [] => exact .nil
  | (key, v) :: members =>
    refine .cons ?_ (spells_prettyMembers members indent)
    have hspace : Blank [' '] := by decide
    have hmember :=
      Member.mk (spellsString_quote key) blank_nil hspace (spellsValue_pretty v indent)
    have hcolon : ": ".toList = [':', ' '] := rfl
    rwa [String.toList_append, String.toList_append, List.append_assoc, hcolon]

end

end ModuleBundler.Json
