import ModuleBundler.Json.Read

/-
  Reading objects with known fields. A shape lists the fields of a structure; a text of the shape
  is an object with these fields in any order, or a list of their values in the shape's order.
  Other members of an object are passed over; a field may not come twice. A field that is missing
  keeps the value it has in the blank structure, where it may be missing at all.
-/

namespace ModuleBundler.Json

/-- Where a field may be missing. -/
inductive Need where
  /-- Nowhere. -/
  | always
  /-- In an object, but not in a list. -/
  | inList
  /-- In objects and, from some field on, in lists. -/
  | never
  deriving DecidableEq, Repr

/-- A field of a structure. -/
structure Field (σ : Type) where
  name : String
  need : Need
  /-- Reads the field's value, and gives what puts it into a structure. -/
  read : Reader (σ → σ)

/-- A field with a reader of its values. -/
def Field.of {σ α : Type} (name : String) (need : Need) (reader : Reader α) (set : α → σ → σ) :
    Field σ :=
  ⟨name, need, reader.map set⟩

/-- The fields of a structure and its value where all of them are missing. -/
structure Shape (σ : Type) where
  blank : σ
  fields : List (Field σ)

namespace Shape

variable {σ : Type} {input : List Char}

/-- Reads the values of fields from a list, up to its closing bracket. -/
def readValues (fields : List (Field σ)) (first : Bool) (value : σ) (input : List Char) :
    Except ReadFault (Read σ input) := do
  match fields with
  | [] =>
    let c ← nextChar input
    if c.value == ']' then return c.map fun _ => value else .error .malformed
  | field :: fields =>
    match ← step ']' first input with
    | .finish rest shorter =>
      if (field :: fields).all (·.need == .never) then return ⟨value, rest, shorter⟩
      else .error .mismatched
    | .item text le =>
      let set ← field.read text
      let r ← readValues fields false (set.value value) set.rest
      return ⟨r.value, r.rest, by have := r.shorter; have := set.shorter; omega⟩

/-- Reads a key after its opening quote, with its field if it is one of a shape's. A field that
came before is refused as soon as its key is read. -/
def readKey (shape : Shape σ) (seen : List String) (quote : Read Unit input) :
    Except ReadFault (Read (Option (Field σ)) input) :=
  match h : stringBody quote.rest with
  | .error e => .error e
  | .ok (key, rest) =>
    let field? := shape.fields.find? (·.name == String.ofList key)
    if seen.contains (String.ofList key) then .error .mismatched
    else .ok ⟨field?, rest, Nat.lt_of_le_of_lt (stringBody_length h) quote.shorter⟩

/-- Reads the value of a member. A member that is no field changes nothing. -/
def readMember (field? : Option (Field σ)) : Reader (σ → σ) :=
  match field? with
  | some field => field.read
  | none => fun input => do return (← skipValue input).map fun _ => id

/-- Whether no field is missing that an object needs. -/
def isComplete (shape : Shape σ) (seen : List String) : Bool :=
  shape.fields.all fun field => field.need != .always || seen.contains field.name

/-- Reads the members of an object up to its closing bracket. `seen` holds the fields that came
before. -/
def readMembers (shape : Shape σ) (first : Bool) (seen : List String) (value : σ)
    (input : List Char) : Except ReadFault (Read σ input) := do
  match ← step '}' first input with
  | .finish rest shorter =>
    if shape.isComplete seen then return ⟨value, rest, shorter⟩ else .error .mismatched
  | .item text le =>
    let key ← shape.readKey seen (← openKey text)
    let mark ← colon key.rest
    let set ← readMember key.value mark.rest
    let r ← readMembers shape false ((key.value.map (·.name)).toList ++ seen) (set.value value)
      set.rest
    return ⟨r.value, r.rest, by
      have := r.shorter; have := set.shorter; have := mark.shorter; have := key.shorter; omega⟩
termination_by input.length
decreasing_by have := set.shorter; have := mark.shorter; have := key.shorter; omega

/-- Reads a structure. -/
def read (shape : Shape σ) : Reader σ := fun input => do
  let c ← nextChar input
  if c.value == '\x7b' then return c.then (← shape.readMembers true [] shape.blank c.rest)
  else if c.value == '[' then
    return c.then (← readValues shape.fields true shape.blank c.rest)
  else .error (wrongType c.value c.rest)

end Shape

end ModuleBundler.Json
