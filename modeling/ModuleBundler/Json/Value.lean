/-
  JSON values and their two written forms: on one line without spaces, and indented by two spaces.
  The members of an object keep their order, and a key may come again.
-/

namespace ModuleBundler

/-- A JSON value. Numbers are natural. -/
inductive Json where
  | null
  | bool (value : Bool)
  | number (value : Nat)
  | string (value : String)
  | list (items : List Json)
  | object (members : List (String × Json))
  deriving Repr, Inhabited

namespace Json

/-! ## Strings -/

/-- A character as it stands in a string. -/
def escapedChar (c : Char) : List Char :=
  match c with
  | '"' => ['\\', '"']
  | '\\' => ['\\', '\\']
  | '\x08' => ['\\', 'b']
  | '\x0c' => ['\\', 'f']
  | '\n' => ['\\', 'n']
  | '\r' => ['\\', 'r']
  | '\t' => ['\\', 't']
  | c =>
    if c.toNat < 0x20 then
      ['\\', 'u', '0', '0', Nat.digitChar (c.toNat / 16), Nat.digitChar (c.toNat % 16)]
    else [c]

/-- The written form of a string. -/
def quote (value : String) : String :=
  String.ofList ('"' :: (value.toList.flatMap escapedChar ++ ['"']))

/-! ## Values -/

mutual

/-- The written form on one line. -/
def compact : Json → String
  | .null => "null"
  | .bool value => if value then "true" else "false"
  | .number value => toString value
  | .string value => quote value
  | .list items => "[" ++ ",".intercalate (compactItems items) ++ "]"
  | .object members => "\x7b" ++ ",".intercalate (compactMembers members) ++ "\x7d"

/-- The written forms of items. -/
def compactItems : List Json → List String
  | [] => []
  | item :: items => compact item :: compactItems items

/-- The written forms of members. -/
def compactMembers : List (String × Json) → List String
  | [] => []
  | (key, value) :: members => (quote key ++ ":" ++ compact value) :: compactMembers members

end

/-- The break before an indented line. -/
def lineBreak (indent : Nat) : String := String.ofList ('\n' :: List.replicate (2 * indent) ' ')

/-- Written parts between brackets, each on a line of its own; nothing between the brackets if
there are no parts. -/
def block (opener closer : String) (indent : Nat) (parts : List String) : String :=
  if parts.isEmpty then opener ++ closer
  else
    opener ++ ",".intercalate (parts.map (lineBreak (indent + 1) ++ ·)) ++ lineBreak indent ++
      closer

mutual

/-- The indented form. -/
def pretty (indent : Nat) : Json → String
  | .null => "null"
  | .bool value => if value then "true" else "false"
  | .number value => toString value
  | .string value => quote value
  | .list items => block "[" "]" indent (prettyItems (indent + 1) items)
  | .object members => block "\x7b" "\x7d" indent (prettyMembers (indent + 1) members)

/-- The indented forms of items. -/
def prettyItems (indent : Nat) : List Json → List String
  | [] => []
  | item :: items => pretty indent item :: prettyItems indent items

/-- The indented forms of members. -/
def prettyMembers (indent : Nat) : List (String × Json) → List String
  | [] => []
  | (key, value) :: members =>
    (quote key ++ ": " ++ pretty indent value) :: prettyMembers indent members

end

end Json

end ModuleBundler
