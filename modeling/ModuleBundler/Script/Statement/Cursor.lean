import ModuleBundler.Script.Scan

/-
  Places between the tokens of a script, and the way from an opening bracket to its partner.
-/

namespace ModuleBundler.Script

/-! ## Places between tokens -/

/-- A place between two tokens. -/
structure Cursor where
  /-- The token before. -/
  last : Token
  /-- The tokens after. -/
  rest : List Token
  deriving Repr, Inhabited

namespace Cursor

/-- The place after the next token. -/
def next (c : Cursor) : Cursor :=
  match c.rest with
  | [] => c
  | t :: ts => ⟨t, ts⟩

/-- Whether the next token is this punctuator. -/
def atPunctuator (c : Cursor) (text : String) : Bool := c.rest.head?.any (·.isPunctuator text)

/-- Whether the next token is this name. -/
def atName (c : Cursor) (text : String) : Bool := c.rest.head?.any (·.isName text)

/-- Whether the next token is of a kind. -/
def atKind (c : Cursor) (kind : TokenKind) : Bool := c.rest.head?.any (·.kind == kind)

/-- The text of the next token. -/
def text (c : Cursor) : String := (c.rest.head?.map (·.text)).getD ""

/-- The offset at which the next token starts. -/
def offset (c : Cursor) : Nat := (c.rest.headD c.last).start.offset

/-- A fault at the next token, or at the last one where the text has ended. -/
def fault (c : Cursor) (fault : Fault) : SyntaxError := (c.rest.headD c.last).start.fault fault

/-- The place after a semicolon, if one is next. -/
def skipSemicolon (c : Cursor) : Cursor := if c.atPunctuator ";" then c.next else c

@[simp] theorem next_rest (c : Cursor) : c.next.rest = c.rest.tail := by
  unfold next; split <;> simp_all

/-- Whether a place is reached from another one by going on. -/
def Reaches (c c' : Cursor) : Prop := c'.last :: c'.rest <:+ c.last :: c.rest

theorem Reaches.refl (c : Cursor) : c.Reaches c := List.suffix_rfl

theorem Reaches.trans {c d e : Cursor} (h : c.Reaches d) (h' : d.Reaches e) : c.Reaches e :=
  List.IsSuffix.trans h' h

theorem Reaches.rest {c c' : Cursor} (h : c.Reaches c') : c'.rest <:+ c.rest := by
  rcases List.suffix_cons_iff.1 h with heq | hsuffix
  · exact (List.cons_eq_cons.1 heq).2 ▸ List.suffix_rfl
  · exact (List.suffix_cons _ _).trans hsuffix

/-- What lies among the tokens after a place is reached from it. -/
theorem reaches_of_suffix {c c' : Cursor} (h : c'.last :: c'.rest <:+ c.rest) : c.Reaches c' :=
  h.trans (List.suffix_cons _ _)

theorem reaches_of_cons {c : Cursor} {t : Token} {ts : List Token} (h : c.rest = t :: ts) :
    c.Reaches ⟨t, ts⟩ :=
  reaches_of_suffix (h ▸ List.suffix_rfl)

theorem reaches_next (c : Cursor) : c.Reaches c.next := by
  unfold next
  split
  · exact Reaches.refl c
  · next t ts hrest => exact reaches_of_cons hrest

theorem reaches_skipSemicolon (c : Cursor) : c.Reaches c.skipSemicolon := by
  unfold skipSemicolon
  split
  · exact c.reaches_next
  · exact Reaches.refl c

end Cursor

/-! ## Brackets -/

/-- The closing bracket of an opening one. -/
def closerOf (opener : String) : String :=
  if opener == "\x7b" then "\x7d" else if opener == "[" then "]" else ")"

/-- The first closing bracket of a kind at a depth, with the tokens passed on the way. -/
def splitAtCloser (depth : Nat) (closer : String) (passed : List Token) :
    List Token → Option (List Token × Cursor)
  | [] => none
  | t :: ts =>
    if t.depth == depth && t.isPunctuator closer then some (passed.reverse, ⟨t, ts⟩)
    else splitAtCloser depth closer (t :: passed) ts

theorem splitAtCloser_suffix {depth : Nat} {closer : String} {passed ts inside : List Token}
    {c : Cursor} (h : splitAtCloser depth closer passed ts = some (inside, c)) :
    c.last :: c.rest <:+ ts := by
  induction ts generalizing passed with
  | nil => cases h
  | cons t ts ih =>
    unfold splitAtCloser at h
    split at h
    · cases h
      exact List.suffix_rfl
    · exact (ih h).trans (List.suffix_cons t ts)

/-- The tokens between an opening bracket and its partner, and the place after the partner. -/
def matchingClose (opener : Token) (rest : List Token) :
    Except SyntaxError (List Token × Cursor) :=
  match splitAtCloser opener.depth (closerOf opener.text) [] rest with
  | some found => .ok found
  | none => .error (opener.start.fault (.missingCloser (closerOf opener.text)))

theorem matchingClose_suffix {opener : Token} {rest inside : List Token} {c : Cursor}
    (h : matchingClose opener rest = .ok (inside, c)) : c.last :: c.rest <:+ rest := by
  unfold matchingClose at h
  split at h
  · next hsplit =>
    cases h
    exact splitAtCloser_suffix hsplit
  · cases h

/-! ## Steps that can fail -/

theorem bind_eq_ok {ε α β : Type} {x : Except ε α} {f : α → Except ε β} {b : β} :
    (x >>= f) = .ok b ↔ ∃ a, x = .ok a ∧ f a = .ok b := by
  cases x <;> simp [bind, Except.bind]

end ModuleBundler.Script
