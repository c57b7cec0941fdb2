import Mathlib.Data.List.TakeWhile
import ModuleBundler.Json.Shape
import ModuleBundler.Proofs.JsonSkip

/-
  Objects read member by member. A reader of one type takes back what was written for it, however it
  is spelled (`Restores`). Of an object only the fields that came so far have to be known
  (`reads_readMembers`): a text that has some of the fields, in any order and between any other
  members, gives the blank structure with just these fields put in (`readText_of_holdsMembers`).
-/

namespace ModuleBundler.Json

variable {α σ : Type} {first : Bool} {v : Json} {a : α} {input ws text rest body : List Char}

/-! ## Values of known types -/

/-- Whether a reader takes a value from every text that spells what was written for it. -/
def Restores (reader : Reader α) (v : Json) (a : α) : Prop :=
  ∀ {ws text rest : List Char}, Blank ws → SpellsValue v text → EndsNumber rest →
    Reads (reader (ws ++ (text ++ rest))) a rest

theorem restores_readString (value : String) : Restores readString (.string value) value := by
  intro ws text rest hws h _
  cases h with
  | string h =>
    obtain ⟨hchars⟩ := h
    rw [List.cons_append, List.append_assoc]
    apply Reads.bind (reads_nextChar hws rfl _)
    intro hc
    exact reads_finishString hchars rfl

theorem restores_readBool (value : Bool) : Restores readBool (.bool value) value := by
  intro ws text rest hws h _
  cases h with
  | yes =>
    apply Reads.bind (reads_nextChar hws rfl _)
    intro hc
    exact reads_finishWord "rue" (c := ⟨'t', _, hc⟩) rfl true
  | no =>
    apply Reads.bind (reads_nextChar hws rfl _)
    intro hc
    exact reads_finishWord "alse" (c := ⟨'f', _, hc⟩) rfl false

theorem restores_readOptional_none (reader : Reader α) :
    Restores (readOptional reader) .null none := by
  intro ws text rest hws h _
  cases h with
  | null =>
    apply Reads.bind (reads_nextChar hws rfl _)
    intro hc
    exact reads_finishWord "ull" (c := ⟨'n', _, hc⟩) rfl none

theorem restores_readOptional_some (value : String) :
    Restores (readOptional readString) (.string value) (some value) := by
  intro ws text rest hws h hrest
  have hread := restores_readString value hws h hrest
  cases h with
  | string h =>
    obtain ⟨hchars⟩ := h
    rw [List.cons_append] at hread ⊢
    apply Reads.bind (reads_nextChar hws rfl _)
    intro hc
    exact hread.map some

theorem reads_readItems {reader : Reader α} {write : α → Json}
    (hreader : ∀ a, Restores reader (write a) a) (values : List α)
    (h : Parts SpellsValue first (values.map write) text) (rest : List Char) :
    Reads (readItems reader first (text ++ ([']'] ++ rest))) values rest := by
  induction values generalizing first text with
  | nil =>
    cases h with
    | nil hws =>
      obtain ⟨shorter, hstep⟩ := step_closer ']' rfl hws first rest
      rw [readItems, List.singleton_append, hstep]
      exact ⟨_, rfl, rfl, rfl⟩
  | cons value values ih =>
    cases h with
    | cons hgap hitem hitems =>
      obtain ⟨ws, le, hws, hstep⟩ := step_gap ']' (by decide) hgap hitem.begins _
      rw [List.append_assoc, List.append_assoc, readItems, hstep]
      apply Reads.bind
        (hreader value hws hitem (hitems.endsNumber (endsNumber_cons rfl rest)))
      intro hread
      apply Reads.bind (ih hitems)
      intro hrest
      exact ⟨_, rfl, rfl, rfl⟩

theorem restores_readList {reader : Reader α} {write : α → Json}
    (hreader : ∀ a, Restores reader (write a) a) (values : List α) :
    Restores (readList reader) (.list (values.map write)) values := by
  intro ws text rest hws h _
  cases h with
  | list h =>
    rw [List.cons_append, List.append_assoc]
    apply Reads.bind (reads_nextChar hws rfl _)
    intro hc
    apply Reads.bind (reads_readItems hreader values h rest)
    intro hitems
    exact ⟨_, rfl, rfl, rfl⟩

/-! ## Texts of objects -/

variable {members : List (String × Json)} {key : String} {given seen : List String}

/-- Whether a text is that of a member with one of the known keys, with its known value, or that of
any member with another key. -/
inductive SpellsMember (members : List (String × Json)) : Option String → List Char → Prop
  | known {key : String} {v : Json} {text : List Char} (hmem : (key, v) ∈ members)
    (h : Member SpellsString SpellsValue (key, v) text) : SpellsMember members (some key) text
  | other {key : String} {text : List Char} (hkey : key ∉ members.map (·.1))
    (h : Member SpellsString (fun _ : Unit => IsValue) (key, ()) text) :
    SpellsMember members none text

/-- Whether a text is that of an object that has the known members with the given keys, in this
order and each once, and beside them any members with other keys. -/
structure HoldsMembers (members : List (String × Json)) (given : List String) (text : String) :
    Prop where
  nodup : given.Nodup
  spelled : ∃ before parts body after, Blank before ∧ Blank after ∧
    Parts (SpellsMember members) true parts body ∧ parts.filterMap id = given ∧
    text.toList = before ++ '{' :: (body ++ '}' :: after)

theorem Parts.map {β : Type} {part : α → List Char → Prop} {part' : β → List Char → Prop}
    {as : List α} (f : α → β) (h : Parts part first as text)
    (himp : ∀ a ∈ as, ∀ text, part a text → part' (f a) text) :
    Parts part' first (as.map f) text := by
  induction h with
  | nil hws => exact .nil hws
  | cons hgap hpart _ ih =>
    obtain ⟨hhead, htail⟩ := List.forall_mem_cons.1 himp
    exact .cons hgap (hhead _ hpart) (ih htail)

/-- The text of an object has all of its members. -/
theorem holdsMembers_of_spellsValue {text : String} (hnodup : (members.map (·.1)).Nodup)
    (h : SpellsValue (.object members) text.toList) :
    HoldsMembers members (members.map (·.1)) text where
  nodup := hnodup
  spelled := by
    generalize hchars : text.toList = chars at h
    cases h with
    | @object _ body hbody =>
      have hparts : Parts (SpellsMember members) true (members.map fun m => some m.1) body :=
        hbody.map _ fun m hm _ hspells => .known hm hspells
      refine ⟨[], _, body, [], blank_nil, blank_nil, hparts, ?_, rfl⟩
      rw [List.filterMap_map]
      exact congrFun List.filterMap_eq_map members

/-! ## Reading objects -/

/-- Whether a field puts the value that a member was written with into a structure. What came
before is told by the fields that it had: `pick` gives the structure with these. -/
structure Field.Restores (pick : List String → σ) (field : Field σ) (m : String × Json) : Prop where
  name_eq : field.name = m.1
  put : ∃ put, Json.Restores field.read m.2 put ∧ ∀ seen, put (pick seen) = pick (m.1 :: seen)

theorem Field.restores_of {reader : Reader α} {set : α → σ → σ} {pick : List String → σ}
    {name : String} (need : Need) (h : Json.Restores reader v a)
    (hset : ∀ seen, set a (pick seen) = pick (name :: seen)) :
    Field.Restores pick (Field.of name need reader set) (name, v) where
  name_eq := rfl
  put := ⟨set a, fun hws hspells hrest => (h hws hspells hrest).map set, hset⟩

/-- Whether a shape has a field for each of some members, in whatever order they come, and misses
none of them. -/
structure Shape.Restores (shape : Shape σ) (members : List (String × Json))
    (pick : List String → σ) : Prop where
  blank : shape.blank = pick []
  optional : ∀ field ∈ shape.fields, field.need ≠ .always
  distinct : (members.map (·.1)).Nodup
  fields : List.Forall₂ (Field.Restores pick) shape.fields members
  /-- It does not matter in which order the fields came. -/
  unordered : ∀ seen, pick seen.reverse = pick seen

variable {shape : Shape σ} {pick : List String → σ}

theorem find?_field_cons_of_ne {field : Field σ} (h : field.name ≠ key) (fields : List (Field σ)) :
    (field :: fields).find? (·.name == key) = fields.find? (·.name == key) :=
  List.find?_cons_of_neg (mt beq_iff_eq.1 h)

theorem find?_field_of_mem {fields : List (Field σ)}
    (h : List.Forall₂ (Field.Restores pick) fields members)
    (hdistinct : (members.map (·.1)).Nodup) (hmem : (key, v) ∈ members) :
    ∃ field, fields.find? (·.name == key) = some field ∧ field.Restores pick (key, v) := by
  induction h with
  | nil => cases hmem
  | @cons field m fields members hhead _ ih =>
    rw [List.map_cons, List.nodup_cons] at hdistinct
    rcases List.mem_cons.1 hmem with rfl | hmem
    · exact ⟨field, List.find?_cons_of_pos (beq_iff_eq.2 hhead.name_eq), hhead⟩
    · have hne : field.name ≠ key := by
        rintro rfl
        rw [hhead.name_eq] at hmem
        exact hdistinct.1 (List.mem_map.2 ⟨_, hmem, rfl⟩)
      rw [find?_field_cons_of_ne hne]
      exact ih hdistinct.2 hmem

theorem find?_field_eq_none {fields : List (Field σ)}
    (h : List.Forall₂ (Field.Restores pick) fields members) (hkey : key ∉ members.map (·.1)) :
    fields.find? (·.name == key) = none := by
  induction h with
  | nil => rfl
  | @cons field m fields members hhead _ ih =>
    rw [List.map_cons, List.mem_cons, not_or] at hkey
    have hne : field.name ≠ key := fun heq => hkey.1 (heq.symm.trans hhead.name_eq)
    rw [find?_field_cons_of_ne hne]
    exact ih hkey.2

theorem Shape.Restores.isComplete (h : shape.Restores members pick) (seen : List String) :
    shape.isComplete seen = true := by
  rw [Shape.isComplete, List.all_eq_true]
  intro field hfield
  rw [bne_iff_ne.2 (h.optional field hfield), Bool.true_or]

theorem reads_readFieldKey {quote : Read Unit input} (h : SpellsChars key.toList body)
    (hrest : quote.rest = body ++ '"' :: rest) (hnew : key ∉ seen) :
    Reads (shape.readKey seen quote) (shape.fields.find? (·.name == key)) rest := by
  have hbody := stringBody_chars h rest
  rw [← hrest] at hbody
  have hseen : ¬ seen.contains (String.ofList key.toList) = true := by
    rwa [String.ofList_toList, List.contains_iff_mem]
  unfold Shape.readKey
  split
  · next herror =>
    rw [hbody] at herror
    cases herror
  · next hok =>
    rw [hbody] at hok
    cases hok
    dsimp only
    rw [if_neg hseen]
    exact ⟨_, rfl, by rw [String.ofList_toList], rfl⟩

/-- One member is read, and the next ones after it. -/
theorem reads_readMembers_cons {gap name before after more last : List Char} {value result : σ}
    {put : σ → σ} (hgap : Gap first gap) (hkey : SpellsString key name) (hnew : key ∉ seen)
    (hbefore : Blank before)
    (hput : Reads (Shape.readMember (shape.fields.find? (·.name == key))
      (after ++ (text ++ (more ++ last)))) put (more ++ last))
    (hmore : Reads (shape.readMembers false
      (((shape.fields.find? (·.name == key)).map (·.name)).toList ++ seen) (put value)
      (more ++ last)) result rest) :
    Reads (shape.readMembers first seen value
      (gap ++ ((name ++ (before ++ ':' :: (after ++ text))) ++ more) ++ last)) result rest := by
  have htext : gap ++ ((name ++ (before ++ ':' :: (after ++ text))) ++ more) ++ last =
      gap ++ (name ++ (before ++ ':' :: (after ++ (text ++ (more ++ last))))) := by
    simp only [List.append_assoc, List.cons_append]
  obtain ⟨ws, le, hws, hstep⟩ := step_gap '}' (by decide) hgap hkey.begins _
  rw [htext, Shape.readMembers, hstep]
  obtain @⟨body, hchars⟩ := hkey
  have hname : ∀ cs, ws ++ (('"' :: (body ++ ['"'])) ++ cs) = ws ++ '"' :: (body ++ '"' :: cs) := by
    intro cs
    rw [List.cons_append, List.append_assoc, List.singleton_append]
  simp only [hname]
  apply Reads.bind (reads_openKey hws _)
  intro hquote
  apply Reads.bind (reads_readFieldKey hchars rfl hnew)
  intro hfield
  apply Reads.bind (reads_colon hbefore _)
  intro hcolon
  apply Reads.bind hput
  intro hset
  apply Reads.bind hmore
  intro hread
  exact ⟨_, rfl, rfl, rfl⟩

/-- The members of an object give the structure with the fields that are among them. -/
theorem reads_readMembers (h : shape.Restores members pick) {parts : List (Option String)}
    (hparts : Parts (SpellsMember members) first parts text)
    (hseen : ∀ key ∈ seen, key ∈ members.map (·.1)) (hnodup : (parts.filterMap id ++ seen).Nodup)
    (rest : List Char) :
    Reads (shape.readMembers first seen (pick seen) (text ++ '}' :: rest))
      (pick ((parts.filterMap id).reverse ++ seen)) rest := by
  -- Along the members, what was read is told by the keys that came, so only these change.
  induction hparts generalizing seen with
  | @nil first ws hws =>
    obtain ⟨shorter, hstep⟩ := step_closer '}' rfl hws first rest
    rw [Shape.readMembers, hstep]
    show Reads (if shape.isComplete seen = true then _ else _) _ _
    rw [if_pos (h.isComplete seen)]
    exact ⟨_, rfl, rfl, rfl⟩
  | @cons first part parts gap text more hgap hmember hparts ih =>
    have hcloser : EndsNumber ('}' :: rest) := endsNumber_cons rfl rest
    have hends := hparts.endsNumber hcloser
    cases hmember with
    | @known key v _ hmem hmember =>
      obtain @⟨_, _, name, before, after, text, hkey, hbefore, hafter, hvalue⟩ := hmember
      obtain ⟨field, hfind, hname, put, hread, hput⟩ := find?_field_of_mem h.fields h.distinct hmem
      obtain rfl : field.name = key := hname
      have hnodup : (field.name :: (parts.filterMap id ++ seen)).Nodup := hnodup
      have hnew : field.name ∉ seen := mt (List.mem_append_right _) (List.nodup_cons.1 hnodup).1
      -- The rest is read with the key in front of those that came before.
      have hmore := ih (List.forall_mem_cons.2 ⟨List.mem_map.2 ⟨_, hmem, rfl⟩, hseen⟩)
        (List.perm_middle.nodup_iff.2 hnodup)
      have hresult : ((some field.name :: parts).filterMap id).reverse ++ seen =
          (parts.filterMap id).reverse ++ field.name :: seen := by
        show (field.name :: parts.filterMap id).reverse ++ seen = _
        rw [List.reverse_cons, List.append_assoc, List.singleton_append]
      rw [hresult]
      apply reads_readMembers_cons hgap hkey hnew hbefore
      · rw [hfind]
        exact hread hafter hvalue hends
      · rw [hfind, hput]
        exact hmore
    | @other key _ hkey hmember =>
      obtain @⟨_, _, name, before, after, text, hname, hbefore, hafter, hvalue⟩ := hmember
      have hfind := find?_field_eq_none h.fields hkey
      have hpass : Reads (Shape.readMember (none : Option (Field σ))
          (after ++ (text ++ (more ++ '}' :: rest)))) id (more ++ '}' :: rest) := by
        apply Reads.bind (reads_skipValue hvalue hafter hends)
        intro hskip
        exact ⟨_, rfl, rfl, rfl⟩
      apply reads_readMembers_cons hgap hname (mt (hseen key) hkey) hbefore
      · rw [hfind]
        exact hpass
      · rw [hfind]
        exact ih hseen hnodup

/-- An object gives the structure with the known members that it has. -/
theorem readText_of_holdsMembers (h : shape.Restores members pick) {text : String}
    (hholds : HoldsMembers members given text) : readText shape.read text = .ok (pick given) := by
  obtain ⟨before, parts, body, after, hbefore, hafter, hparts, rfl, htext⟩ := hholds.spelled
  have hread : Reads (shape.read text.toList) (pick (parts.filterMap id)) after := by
    have hmembers := reads_readMembers h hparts (fun _ hkey => absurd hkey List.not_mem_nil)
      (by rw [List.append_nil]; exact hholds.nodup) after
    rw [List.append_nil, h.unordered, ← h.blank] at hmembers
    rw [htext]
    apply Reads.bind (reads_nextChar hbefore rfl _)
    intro hc
    apply Reads.bind hmembers
    intro hrest
    exact ⟨_, rfl, rfl, rfl⟩
  have hblank : skipBlank after = [] := List.dropWhile_eq_nil_iff.2 hafter
  obtain ⟨shorter, hok⟩ := hread.eq_ok
  rw [readText, hok]
  show (if (skipBlank after).isEmpty = true then _ else _) = _
  rw [hblank]
  rfl

end ModuleBundler.Json
