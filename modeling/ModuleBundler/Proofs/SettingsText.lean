import ModuleBundler.Config.Read
import ModuleBundler.Proofs.JsonObjects

/-
  Settings read from texts. The fields that are written are the fields that are read, under the same
  names, and each reader takes what is written for its field. So settings are read back from what
  they are written as, and a text with only some of their fields gives the default with these fields
  replaced (`settings_readBack`).
-/

namespace ModuleBundler

open Json

/-- The members of an object. -/
def Json.members : Json → List (String × Json)
  | .object members => members
  | _ => []

/-! ## Fields -/

/-- The default settings with some of their fields replaced. -/
def ResolveSettings.replaced (s : ResolveSettings) (fields : List String) : ResolveSettings where
  extensions := if "extensions" ∈ fields then s.extensions else ({} : ResolveSettings).extensions
  resolveIndex :=
    if "resolveIndex" ∈ fields then s.resolveIndex else ({} : ResolveSettings).resolveIndex
  caseSensitive :=
    if "caseSensitive" ∈ fields then s.caseSensitive else ({} : ResolveSettings).caseSensitive

/-- The default settings with some of their fields replaced. -/
def OutputSettings.replaced (s : OutputSettings) (fields : List String) : OutputSettings where
  directory := if "outDir" ∈ fields then s.directory else ({} : OutputSettings).directory
  fileName := if "filename" ∈ fields then s.fileName else ({} : OutputSettings).fileName
  banner? := if "banner" ∈ fields then s.banner? else ({} : OutputSettings).banner?
  strict := if "strict" ∈ fields then s.strict else ({} : OutputSettings).strict
  write := if "write" ∈ fields then s.write else ({} : OutputSettings).write

theorem ResolveSettings.restores (s : ResolveSettings) :
    shape.Restores s.toJson.members s.replaced where
  blank := rfl
  optional := by
    intro field hfield
    simp only [shape, List.mem_cons, List.not_mem_nil, or_false] at hfield
    rcases hfield with rfl | rfl | rfl <;> decide
  distinct := by
    show ["extensions", "resolveIndex", "caseSensitive"].Nodup
    decide
  fields := by
    refine .cons ?_ (.cons ?_ (.cons ?_ .nil))
    · exact Field.restores_of _ (restores_readList restores_readString _)
        fun seen => by simp [replaced]
    · exact Field.restores_of _ (restores_readBool _) fun seen => by simp [replaced]
    · exact Field.restores_of _ (restores_readBool _) fun seen => by simp [replaced]
  unordered seen := by simp [replaced]

theorem restores_banner (banner? : Option String) :
    Restores (readOptional readString)
      (match banner? with
        | some banner => .string banner
        | none => .null) banner? := by
  cases banner? with
  | none => exact restores_readOptional_none readString
  | some banner => exact restores_readOptional_some banner

theorem OutputSettings.restores (s : OutputSettings) :
    shape.Restores s.toJson.members s.replaced where
  blank := rfl
  optional := by
    intro field hfield
    simp only [shape, List.mem_cons, List.not_mem_nil, or_false] at hfield
    rcases hfield with rfl | rfl | rfl | rfl | rfl <;> decide
  distinct := by
    show ["outDir", "filename", "banner", "strict", "write"].Nodup
    decide
  fields := by
    refine .cons ?_ (.cons ?_ (.cons ?_ (.cons ?_ (.cons ?_ .nil))))
    · exact Field.restores_of _ (restores_readString _) fun seen => by simp [replaced]
    · exact Field.restores_of _ (restores_readString _) fun seen => by simp [replaced]
    · exact Field.restores_of _ (restores_banner _) fun seen => by simp [replaced]
    · exact Field.restores_of _ (restores_readBool _) fun seen => by simp [replaced]
    · exact Field.restores_of _ (restores_readBool _) fun seen => by simp [replaced]
  unordered seen := by simp [replaced]

/-! ## Reading back -/

/-- Whether settings are read back from what they are written as. -/
structure ReadsBack {σ : Type} (read : Reader σ) (toJson : σ → Json)
    (replaced : σ → List String → σ) : Prop where
  compact : ∀ s, readText read (toJson s).compact = .ok s
  pretty : ∀ s indent, readText read ((toJson s).pretty indent) = .ok s
  /-- Where only some of the fields are given, the others have their defaults. -/
  given : ∀ s fields text, HoldsMembers (toJson s).members fields text →
    readText read text = .ok (replaced s fields)

theorem readsBack_of_restores {σ : Type} {shape : Shape σ} {toJson : σ → Json}
    {replaced : σ → List String → σ}
    (hobject : ∀ s, toJson s = .object (toJson s).members)
    (h : ∀ s, shape.Restores (toJson s).members (replaced s))
    (hall : ∀ s, replaced s ((toJson s).members.map (·.1)) = s) :
    ReadsBack shape.read toJson replaced := by
  have hspelled : ∀ s text, SpellsValue (toJson s) text.toList →
      readText shape.read text = .ok s := by
    intro s text htext
    rw [hobject s] at htext
    rw [readText_of_holdsMembers (h s) (holdsMembers_of_spellsValue (h s).distinct htext), hall]
  exact ⟨fun s => hspelled s _ (spellsValue_compact _),
    fun s indent => hspelled s _ (spellsValue_pretty _ indent),
    fun s fields text htext => readText_of_holdsMembers (h s) htext⟩

/-- Settings are read back from both of their written forms, and from a text with some of their
fields among any other members the default is read with just these fields replaced. -/
theorem settings_readBack :
    ReadsBack ResolveSettings.read ResolveSettings.toJson ResolveSettings.replaced ∧
      ReadsBack OutputSettings.read OutputSettings.toJson OutputSettings.replaced :=
  ⟨readsBack_of_restores (fun _ => rfl) ResolveSettings.restores fun _ => rfl,
    readsBack_of_restores (fun _ => rfl) OutputSettings.restores fun _ => rfl⟩

/-- A text with two fields of output settings, between members with another key that comes twice.
One field has an escape in its key, and the first value could not be read as a string. -/
def partialText : String :=
  " \x7b\"x\":[-1.5e+3,\x7b\"\\ud800\":null\x7d]," ++
    "\n\"wr\\u0069te\" : false,\"banner\":\"\\u00e9\",\"x\":0\x7d "

/-- Settings that differ from the default in all fields. -/
def otherSettings : OutputSettings where
  directory := "out"
  fileName := "a.js"
  banner? := some "é"
  strict := false
  write := false

theorem isValue_deep : IsValue "[-1.5e+3,\x7b\"\\ud800\":null\x7d]".toList := by
  have hnumber : IsUnsigned ['1', '.', '5', 'e', '+', '3'] :=
    @IsUnsigned.mk ['1'] ['.', '5'] ['e', '+', '3'] (by decide)
      (@IsFraction.some ['5'] (by decide))
      (@IsExponent.some 'e' ['+'] ['3'] (by decide) (by decide) (by decide))
  have hhalf : IsString "\"\\ud800\"".toList :=
    .mk (.cons (@IsPiece.unit ['d', '8', '0', '0'] (by decide)) .nil)
  have hnull : IsValue "null".toList := .word (by decide)
  have hobject : IsValue "\x7b\"\\ud800\":null\x7d".toList :=
    .object (.cons (.first blank_nil)
      (@Member.mk _ _ _ _ () () _ _ _ _ hhalf blank_nil blank_nil hnull) (.nil blank_nil))
  exact @IsValue.list [(), ()] _ (.cons (.first blank_nil) (.negative hnumber)
    (.cons (.later blank_nil blank_nil) hobject (.nil blank_nil)))

theorem holdsMembers_partialText :
    HoldsMembers otherSettings.toJson.members ["write", "banner"] partialText where
  nodup := by decide
  spelled := by
    have hplain : ∀ {c : Char} {cs body : List Char}, IsPlain c → SpellsChars cs body →
        SpellsChars (c :: cs) (c :: body) := fun hc hcs => .cons (.plain hc) hcs
    have hwriteChars : SpellsChars "write".toList "wr\\u0069te".toList :=
      hplain (by decide) (hplain (by decide) (.cons
        (@SpellsChar.unit ['0', '0', '6', '9'] (by decide) (by decide))
        (hplain (by decide) (hplain (by decide) .nil))))
    have haccent : SpellsChars "é".toList "\\u00e9".toList :=
      .cons (@SpellsChar.unit ['0', '0', 'e', '9'] (by decide) (by decide)) .nil
    have hzero : IsValue ['0'] :=
      .unsigned (@IsUnsigned.mk ['0'] [] [] (by decide) .none .none)
    have hx : SpellsString "x" "\"x\"".toList := spellsString_quote "x"
    have hbannerKey : SpellsString "banner" "\"banner\"".toList := spellsString_quote "banner"
    have hspace : Blank [' '] := by decide
    have hline : Blank ['\n'] := by decide
    have hfirst : SpellsMember otherSettings.toJson.members none _ :=
      @SpellsMember.other _ "x" _ (by decide) (.mk hx blank_nil blank_nil isValue_deep)
    have hwrite : SpellsMember otherSettings.toJson.members (some "write") _ :=
      @SpellsMember.known _ "write" (.bool false) _
        (.tail _ (.tail _ (.tail _ (.tail _ (.head _)))))
        (.mk (.mk hwriteChars) hspace hspace .no)
    have hbanner : SpellsMember otherSettings.toJson.members (some "banner") _ :=
      @SpellsMember.known _ "banner" (.string "é") _ (.tail _ (.tail _ (.head _)))
        (.mk hbannerKey blank_nil blank_nil (.string (.mk haccent)))
    have hlast : SpellsMember otherSettings.toJson.members none _ :=
      @SpellsMember.other _ "x" _ (by decide) (.mk hx blank_nil blank_nil hzero)
    exact ⟨[' '], [none, some "write", some "banner", none], _, [' '], hspace, hspace,
      .cons (.first blank_nil) hfirst (.cons (.later blank_nil hline) hwrite
        (.cons (.later blank_nil blank_nil) hbanner
          (.cons (.later blank_nil blank_nil) hlast (.nil blank_nil)))), rfl, rfl⟩

theorem settings_readBack_partialText :
    HoldsMembers otherSettings.toJson.members ["write", "banner"] partialText ∧
    readText OutputSettings.read partialText =
      .ok ⟨"dist", "bundle.js", some "é", true, false⟩ ∧
    readText OutputSettings.read (otherSettings.toJson.pretty 0) = .ok otherSettings ∧
    readText ResolveSettings.read (ResolveSettings.mk [""] true false).toJson.compact =
      .ok ⟨[""], true, false⟩ := by
  obtain ⟨hresolve, houtput⟩ := settings_readBack
  exact ⟨holdsMembers_partialText, houtput.given _ _ _ holdsMembers_partialText,
    houtput.pretty _ 0, hresolve.compact _⟩

end ModuleBundler
