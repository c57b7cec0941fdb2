import ModuleBundler.Json.Lexical

/-
  Readers of JSON texts. A reader takes a value of one type from the front of a text and leaves a
  shorter rest, so reading always ends. It stops at the first thing that is wrong: a value of
  another type is refused before anything after it is looked at.
-/

namespace ModuleBundler.Json

/-- A value read from the front of a text, and the rest. -/
structure Read (α : Type) (input : List Char) where
  value : α
  rest : List Char
  shorter : rest.length < input.length

/-- A reader of values from texts. -/
abbrev Reader (α : Type) := (input : List Char) → Except ReadFault (Read α input)

variable {α β : Type} {input : List Char}

/-- The same part of a text with another value. -/
def Read.map (f : α → β) (r : Read α input) : Read β input := ⟨f r.value, r.rest, r.shorter⟩

/-- What was read from the rest, as read from the whole. -/
def Read.then (r : Read α input) (next : Read β r.rest) : Read β input :=
  ⟨next.value, next.rest, Nat.lt_trans next.shorter r.shorter⟩

/-- Reads a value and changes it. -/
def Reader.map (f : α → β) (reader : Reader α) : Reader β := fun input =>
  (reader input).map (Read.map f)

/-- The first character that is not blank. -/
def nextChar : Reader Char := fun input =>
  match h : skipBlank input with
  | [] => .error .truncated
  | c :: cs =>
    .ok ⟨c, cs, by have := skipBlank_length input; rw [h, List.length_cons] at this; exact this⟩

/-! ## Values of known types -/

/-- What is wrong with a word whose first character was read, where no word is asked for. -/
def wordFault (word : String) (input : List Char) : ReadFault :=
  match expectWord word.toList input with
  | .ok _ => .mismatched
  | .error e => e

/-- What is wrong with a value that starts with a character and is not of the type asked for. A
value that is no list and no object has to be well formed to be of another type. -/
def wrongType (c : Char) (cs : List Char) : ReadFault :=
  match c with
  | 'n' => wordFault "ull" cs
  | 't' => wordFault "rue" cs
  | 'f' => wordFault "alse" cs
  | '-' => (numberFault cs).getD .mismatched
  | '"' =>
    match stringBody cs with
    | .ok _ => .mismatched
    | .error e => e
  | '[' => .mismatched
  | '{' => .mismatched
  | c => if c.isDigit then (numberFault (c :: cs)).getD .mismatched else .malformed

/-- The rest of a word after its first character. -/
def finishWord (word : String) (c : Read Char input) (value : α) :
    Except ReadFault (Read α input) :=
  match h : expectWord word.toList c.rest with
  | .error e => .error e
  | .ok rest => .ok ⟨value, rest, Nat.lt_of_le_of_lt (expectWord_length h) c.shorter⟩

/-- The rest of a string after its opening quote. -/
def finishString (c : Read Char input) : Except ReadFault (Read String input) :=
  match h : stringBody c.rest with
  | .error e => .error e
  | .ok (value, rest) =>
    .ok ⟨String.ofList value, rest, Nat.lt_of_le_of_lt (stringBody_length h) c.shorter⟩

/-- Reads a string. -/
def readString : Reader String := fun input => do
  let c ← nextChar input
  if c.value == '"' then finishString c else .error (wrongType c.value c.rest)

/-- Reads a truth value. -/
def readBool : Reader Bool := fun input => do
  let c ← nextChar input
  if c.value == 't' then finishWord "rue" c true
  else if c.value == 'f' then finishWord "alse" c false
  else .error (wrongType c.value c.rest)

/-- Reads nothing but the word for no value. -/
def readNull : Reader Unit := fun input => do
  let c ← nextChar input
  if c.value == 'n' then finishWord "ull" c () else .error (wrongType c.value c.rest)

/-- Reads a value that may be missing. -/
def readOptional (reader : Reader α) : Reader (Option α) := fun input => do
  let c ← nextChar input
  if c.value == 'n' then finishWord "ull" c none else reader.map some input

/-! ## Lists -/

/-- How a list or an object goes on. -/
inductive Step (input : List Char) where
  /-- It ends before the rest. -/
  | finish (rest : List Char) (shorter : rest.length < input.length)
  /-- Another item stands at the front of the rest. -/
  | item (rest : List Char) (le : rest.length ≤ input.length)

/-- How a list or an object with a closing bracket goes on. A comma stands before every item but
the first, and none before the bracket. -/
def step (closer : Char) (first : Bool) (input : List Char) : Except ReadFault (Step input) := do
  let c ← nextChar input
  if c.value == closer then return .finish c.rest c.shorter
  else if first then return .item input (Nat.le_refl _)
  else if c.value == ',' then
    let ahead ← nextChar c.rest
    if ahead.value == closer then .error .malformed
    else return .item c.rest (Nat.le_of_lt c.shorter)
  else .error .malformed

/-- Reads the items of a list up to its closing bracket. -/
def readItems (reader : Reader α) (first : Bool) (input : List Char) :
    Except ReadFault (Read (List α) input) := do
  match ← step ']' first input with
  | .finish rest shorter => return ⟨[], rest, shorter⟩
  | .item text le =>
    let item ← reader text
    let items ← readItems reader false item.rest
    return ⟨item.value :: items.value, items.rest, by
      have := items.shorter; have := item.shorter; omega⟩
termination_by input.length
decreasing_by have := item.shorter; omega

/-- Reads a list of values of one type. -/
def readList (reader : Reader α) : Reader (List α) := fun input => do
  let c ← nextChar input
  if c.value == '[' then return c.then (← readItems reader true c.rest)
  else .error (wrongType c.value c.rest)

/-! ## Values of any type -/

/-- The opening quote of a key. -/
def openKey : Reader Unit := fun input => do
  let c ← nextChar input
  if c.value == '"' then return c.map fun _ => () else .error .malformed

/-- The colon after a key. -/
def colon : Reader Unit := fun input => do
  let c ← nextChar input
  if c.value == ':' then return c.map fun _ => () else .error .malformed

/-- The rest of a string after its opening quote, passed over. -/
def passString (c : Read α input) : Except ReadFault (Read Unit input) :=
  match h : skipString c.rest with
  | .error e => .error e
  | .ok rest => .ok ⟨(), rest, Nat.lt_of_le_of_lt (skipString_length h) c.shorter⟩

/-- A number after its sign, passed over. -/
def passNumber (text : List Char) (le : text.length ≤ input.length) :
    Except ReadFault (Read Unit input) :=
  match h : skipNumber text with
  | none => .error .malformed
  | some rest => .ok ⟨(), rest, Nat.lt_of_lt_of_le (skipNumber_length h) le⟩

/-- A key that is passed over, with its colon. -/
def passKey : Reader Unit := fun input => do
  let key ← passString (← openKey input)
  return key.then (← colon key.rest)

mutual

/-- Passes over a value. -/
def skipValue (input : List Char) : Except ReadFault (Read Unit input) := do
  let c ← nextChar input
  match c.value with
  | 'n' => finishWord "ull" c ()
  | 't' => finishWord "rue" c ()
  | 'f' => finishWord "alse" c ()
  | '"' => passString c
  | '-' => passNumber c.rest (Nat.le_of_lt c.shorter)
  | '[' => return c.then (← skipItems true c.rest)
  | '{' => return c.then (← skipMembers true c.rest)
  | d =>
    if d.isDigit then passNumber (d :: c.rest) c.shorter
    else .error .malformed
termination_by (input.length, 0)
decreasing_by
  · exact Prod.Lex.left _ _ c.shorter
  · exact Prod.Lex.left _ _ c.shorter

/-- Passes over the items of a list up to its closing bracket. -/
def skipItems (first : Bool) (input : List Char) : Except ReadFault (Read Unit input) := do
  match ← step ']' first input with
  | .finish rest shorter => return ⟨(), rest, shorter⟩
  | .item text le =>
    let item ← skipValue text
    let items ← skipItems false item.rest
    return ⟨(), items.rest, by have := items.shorter; have := item.shorter; omega⟩
termination_by (input.length, 1)
decreasing_by
  · rcases Nat.lt_or_eq_of_le le with h | h
    · exact Prod.Lex.left _ _ h
    · rw [h]; exact Prod.Lex.right _ (by decide)
  · exact Prod.Lex.left _ _ (Nat.lt_of_lt_of_le item.shorter le)

/-- Passes over the members of an object up to its closing bracket. -/
def skipMembers (first : Bool) (input : List Char) : Except ReadFault (Read Unit input) := do
  match ← step '}' first input with
  | .finish rest shorter => return ⟨(), rest, shorter⟩
  | .item text le =>
    let key ← passKey text
    let member ← skipValue key.rest
    let members ← skipMembers false member.rest
    return ⟨(), members.rest, by
      have := members.shorter; have := member.shorter; have := key.shorter; omega⟩
termination_by (input.length, 1)
decreasing_by
  · exact Prod.Lex.left _ _ (Nat.lt_of_lt_of_le key.shorter le)
  · exact Prod.Lex.left _ _ (by have := member.shorter; have := key.shorter; omega)

end

/-! ## Whole texts -/

/-- The value that a whole text holds. -/
def readText (reader : Reader α) (text : String) : Except ReadFault α := do
  let r ← reader text.toList
  if (skipBlank r.rest).isEmpty then return r.value else .error .malformed

end ModuleBundler.Json
