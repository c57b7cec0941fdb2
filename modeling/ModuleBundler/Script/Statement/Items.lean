import ModuleBundler.Script.Literal
import ModuleBundler.Script.Statement.Basic
import ModuleBundler.Script.Statement.Cursor

/-
  The parts that imports and exports share: lists of bindings in braces, and the source after the
  word `from`. Reading a part never gives tokens back: the place after it is not before the place
  where it starts.
-/

namespace ModuleBundler.Script

/-- The name that a token gives to a binding: its text, or the value of a string. -/
def bindingName? (t : Token) : Option String :=
  match t.kind with
  | .name => some t.text
  | .string => some (stringValue t.text)
  | _ => none

/-- The name at a place, with the fault to report where there is none. -/
def bindingName (c : Cursor) (fault : Fault) : Except SyntaxError String :=
  match c.rest.head?.bind bindingName? with
  | some name => .ok name
  | none => .error (c.fault fault)

/-- The text of the next token, which must be a name. -/
def expectName (c : Cursor) (what : String) : Except SyntaxError String :=
  if c.atKind .name then .ok c.text else .error (c.fault (.expectedName what))

/-- One entry of a braced list. -/
def listItem (c : Cursor) : Except SyntaxError (Binding × Cursor) := do
  let name ← bindingName c .expectedBinding
  let c := c.next
  if c.atName "as" then
    let c := c.next
    let newName ← bindingName c .expectedAlias
    return (⟨name, newName⟩, c.next)
  else return (⟨name, name⟩, c)

/-- Past the comma after an entry; a list may also end there. -/
def listSeparator (c : Cursor) : Except SyntaxError Cursor :=
  if c.atPunctuator "," then .ok c.next
  else if c.atPunctuator "\x7d" then .ok c
  else .error (c.fault .expectedSeparator)

theorem rest_ne_nil_of_bindingName {c : Cursor} {fault : Fault} {name : String}
    (h : bindingName c fault = .ok name) : 0 < c.rest.length := by
  unfold bindingName at h
  cases hr : c.rest with
  | nil => simp [hr] at h
  | cons t ts => simp

theorem reaches_listItem {c c' : Cursor} {item : Binding} (h : listItem c = .ok (item, c')) :
    c.next.Reaches c' := by
  unfold listItem at h
  obtain ⟨name, -, h⟩ := bind_eq_ok.1 h
  dsimp only at h
  split at h
  · obtain ⟨newName, -, h⟩ := bind_eq_ok.1 h
    cases h
    exact c.next.reaches_next.trans c.next.next.reaches_next
  · cases h
    exact .refl c.next

theorem listItem_length {c c' : Cursor} {item : Binding} (h : listItem c = .ok (item, c')) :
    c'.rest.length < c.rest.length := by
  have hlength := (reaches_listItem h).rest.length_le
  unfold listItem at h
  obtain ⟨name, hname, -⟩ := bind_eq_ok.1 h
  have hrest := rest_ne_nil_of_bindingName hname
  rw [c.next_rest, List.length_tail] at hlength
  omega

theorem reaches_listSeparator {c c' : Cursor} (h : listSeparator c = .ok c') : c.Reaches c' := by
  unfold listSeparator at h
  split at h
  · cases h
    exact c.reaches_next
  · split at h
    · cases h
      exact .refl c
    · cases h

/-- The entries of a list whose brace is open, and the place after the closing one. -/
def bracedList (items : List Binding) (c : Cursor) :
    Except SyntaxError (List Binding × Cursor) :=
  if c.atPunctuator "\x7d" then .ok (items, c.next)
  else
    match _hi : listItem c with
    | .error e => .error e
    | .ok (item, c') =>
      match _hs : listSeparator c' with
      | .error e => .error e
      | .ok c'' => bracedList (items ++ [item]) c''
termination_by c.rest.length
decreasing_by
  have := listItem_length _hi
  have := (reaches_listSeparator _hs).rest.length_le
  omega

theorem reaches_bracedList {items found : List Binding} {c c' : Cursor}
    (h : bracedList items c = .ok (found, c')) : c.Reaches c' := by
  fun_induction bracedList items c with
  | case1 items c =>
    cases h
    exact c.reaches_next
  | case2 => cases h
  | case3 => cases h
  | case4 items c _ item d hitem e hseparator ih =>
    have hd := c.reaches_next.trans (reaches_listItem hitem)
    exact (hd.trans (reaches_listSeparator hseparator)).trans (ih h)

/-- The source after the word `from`: the value of a string, and past the attributes in braces
that may follow it. -/
def fromSource (c : Cursor) : Except SyntaxError (String × Cursor) :=
  if !c.atName "from" then .error (c.fault .expectedFrom)
  else if !c.next.atKind .string then .error (c.next.fault .expectedSpecifier)
  else
    let source := stringValue c.next.text
    let c := c.next.next
    if (c.atName "with" || c.atName "assert") && c.next.atPunctuator "\x7b" then
      match matchingClose c.next.next.last c.next.next.rest with
      | .error e => .error e
      | .ok (_, c) => .ok (source, c)
    else .ok (source, c)

theorem reaches_fromSource {c c' : Cursor} {source : String}
    (h : fromSource c = .ok (source, c')) : c.Reaches c' := by
  unfold fromSource at h
  split at h
  · cases h
  · split at h
    · cases h
    · have hnext := c.reaches_next.trans c.next.reaches_next
      dsimp only at h
      split at h
      · split at h
        · cases h
        · next hclose =>
          cases h
          have hattributes := c.next.next.reaches_next.trans c.next.next.next.reaches_next
          exact (hnext.trans hattributes).trans (Cursor.reaches_of_suffix (matchingClose_suffix hclose))
      · cases h
        exact hnext

/-- A statement that is taken away whole, from its first token to the last one of its form. -/
def whole (first : Token) (form : Except SyntaxError (Form × Cursor)) :
    Except SyntaxError (Statement × Cursor) := do
  let (form, after) ← form
  return (⟨form, first.start.offset, after.last.stop⟩, after)

theorem reaches_whole {first : Token} {form : Except SyntaxError (Form × Cursor)} {c c' : Cursor}
    (hform : ∀ f d, form = .ok (f, d) → c.Reaches d) {statement : Statement}
    (h : whole first form = .ok (statement, c')) : c.Reaches c' := by
  unfold whole at h
  obtain ⟨⟨f, after⟩, hd, h⟩ := bind_eq_ok.1 h
  cases h
  exact hform f _ hd

end ModuleBundler.Script
