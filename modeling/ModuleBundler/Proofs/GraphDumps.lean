import ModuleBundler.Proofs.JsonDecode
import ModuleBundler.Proofs.Views

/-
  Dumps of graphs. A graph is recovered from the value that it is written as, and no other value is
  taken for it (`Graph.ofJson?_eq_some_iff`). The value is read from either of its written forms.
  So a dump tells the entry and all records with their order (`dumps_lossless`), whatever is in the
  code, and however often a specifier stands among the dependencies of a module.
-/

namespace ModuleBundler

variable {α : Type} {v : Json} {text : String}

/-! ## Recovering -/

/-- The identifier that a value was written for. -/
def ModuleId.ofJson? : Json → Option ModuleId
  | .string text => some ⟨text⟩
  | _ => none

/-- The dependency that a member was written for. -/
def Record.dependencyOfMember? (m : String × Json) : Option (String × ModuleId) := do
  return (m.1, ← ModuleId.ofJson? m.2)

/-- The dependencies that a value was written for. -/
def Record.dependenciesOfJson? : Json → Option (List (String × ModuleId))
  | .object members => members.mapM dependencyOfMember?
  | _ => none

/-- The record that a value was written for. -/
def Record.ofJson? : Json → Option Record
  | .object [("id", id), ("dependencies", dependencies), ("code", .string code)] => do
    return ⟨← ModuleId.ofJson? id, code, ← dependenciesOfJson? dependencies⟩
  | _ => none

/-- The graph that a value was written for. -/
def Graph.ofJson? : Json → Option Graph
  | .object [("entry", entry), ("modules", .list modules)] => do
    return ⟨← ModuleId.ofJson? entry, ← modules.mapM Record.ofJson?⟩
  | _ => none

theorem ModuleId.ofJson?_eq_some_iff {id : ModuleId} : ofJson? v = some id ↔ v = id.toJson := by
  constructor
  · intro h
    unfold ofJson? at h
    split at h
    · cases h
      rfl
    · cases h
  · rintro rfl
    rfl

/-- Values are recovered one by one. -/
theorem mapM_eq_some_iff {β : Type} {read : β → Option α} {write : α → β}
    (h : ∀ b a, read b = some a ↔ b = write a) (bs : List β) (as : List α) :
    bs.mapM read = some as ↔ bs = as.map write := by
  induction bs generalizing as with
  | nil => cases as <;> simp
  | cons b bs ih =>
    rw [List.mapM_cons]
    simp only [Option.pure_def, Option.bind_eq_bind, Option.bind_eq_some_iff, h, ih,
      Option.some.injEq]
    constructor
    · rintro ⟨a, rfl, as, rfl, rfl⟩
      rfl
    · intro heq
      cases as with
      | nil => cases heq
      | cons a as =>
        obtain ⟨rfl, rfl⟩ := List.cons_eq_cons.1 heq
        exact ⟨a, rfl, as, rfl, rfl⟩

theorem Record.dependencyOfMember?_eq_some_iff (m : String × Json) (d : String × ModuleId) :
    dependencyOfMember? m = some d ↔ m = (d.1, d.2.toJson) := by
  obtain ⟨key, v⟩ := m
  obtain ⟨specifier, target⟩ := d
  simp only [dependencyOfMember?, Option.pure_def, Option.bind_eq_bind, Option.bind_eq_some_iff,
    Option.some.injEq, Prod.mk.injEq, ModuleId.ofJson?_eq_some_iff]
  constructor
  · rintro ⟨id, hv, rfl, rfl⟩
    exact ⟨rfl, hv⟩
  · rintro ⟨rfl, hv⟩
    exact ⟨target, hv, rfl, rfl⟩

theorem Record.dependenciesOfJson?_eq_some_iff {ds : List (String × ModuleId)} :
    dependenciesOfJson? v = some ds ↔ v = .object (ds.map fun d => (d.1, d.2.toJson)) := by
  cases v with
  | object members =>
    rw [dependenciesOfJson?, mapM_eq_some_iff dependencyOfMember?_eq_some_iff, Json.object.injEq]
  | null | bool | number | string | list => simp [dependenciesOfJson?]

theorem Record.ofJson?_eq_some_iff (v : Json) (r : Record) : ofJson? v = some r ↔ v = r.toJson := by
  constructor
  · intro h
    unfold ofJson? at h
    split at h
    · simp only [Option.pure_def, Option.bind_eq_bind, Option.bind_eq_some_iff,
        ModuleId.ofJson?_eq_some_iff, dependenciesOfJson?_eq_some_iff] at h
      obtain ⟨id, rfl, ds, rfl, hr⟩ := h
      obtain rfl := Option.some.inj hr
      rfl
    · cases h
  · rintro rfl
    have hid : ModuleId.ofJson? r.id.toJson = some r.id := ModuleId.ofJson?_eq_some_iff.2 rfl
    have hdependencies : dependenciesOfJson? r.dependenciesJson = some r.dependencies :=
      dependenciesOfJson?_eq_some_iff.2 rfl
    rw [toJson, ofJson?, hid, hdependencies]
    rfl

/-- A graph is recovered from the value that it is written as, and from no other. -/
theorem Graph.ofJson?_eq_some_iff {g : Graph} : ofJson? v = some g ↔ v = g.toJson := by
  have hmodules := mapM_eq_some_iff Record.ofJson?_eq_some_iff
  constructor
  · intro h
    unfold ofJson? at h
    split at h
    · simp only [Option.pure_def, Option.bind_eq_bind, Option.bind_eq_some_iff,
        ModuleId.ofJson?_eq_some_iff, hmodules] at h
      obtain ⟨entry, rfl, records, rfl, hg⟩ := h
      obtain rfl := Option.some.inj hg
      rfl
    · cases h
  · rintro rfl
    have hentry : ModuleId.ofJson? g.entry.toJson = some g.entry :=
      ModuleId.ofJson?_eq_some_iff.2 rfl
    rw [toJson, ofJson?, hentry, (hmodules _ g.records).2 rfl]
    rfl

/-! ## Dumps -/

/-- Whether a text is one of the written forms of a value. -/
def Json.IsDump (v : Json) (text : String) : Prop :=
  text = v.compact ∨ ∃ indent, text = v.pretty indent

theorem Json.IsDump.spellsValue (h : v.IsDump text) : SpellsValue v text.toList := by
  rcases h with rfl | ⟨indent, rfl⟩
  · exact spellsValue_compact v
  · exact spellsValue_pretty v indent

/-- Whether everything of a graph is recovered from the value that it is dumped as. -/
structure Recovered (v : Json) (entry : ModuleId) (ids : List ModuleId) (records : List Record) :
    Prop where
  /-- All dumps keep to the grammar. -/
  spelled : ∀ text, v.IsDump text → Json.SpellsValue v text.toList
  /-- All dumps are read as the same value. -/
  decoded : ∀ text, v.IsDump text → Json.decode text = .ok v
  graph : Graph.ofJson? v = some ⟨entry, records⟩
  ids : records.map (·.id) = ids

variable {entry entry' : ModuleId} {ids ids' : List ModuleId} {records records' : List Record}

/-- One text is a dump of one graph only. -/
theorem Recovered.unique {w : Json} (hv : Recovered v entry ids records)
    (hw : Recovered w entry' ids' records') (hdump : v.IsDump text) (hdump' : w.IsDump text) :
    entry = entry' ∧ ids = ids' ∧ records = records' := by
  have hvalue : v = w := Except.ok.inj ((hv.decoded text hdump).symm.trans (hw.decoded text hdump'))
  have hgraph := hw.graph
  rw [← hvalue, hv.graph] at hgraph
  obtain ⟨rfl, rfl⟩ := Graph.mk.inj (Option.some.inj hgraph)
  exact ⟨rfl, hv.ids.symm.trans hw.ids, rfl⟩

theorem Graph.recovered (g : Graph) : Recovered g.toJson g.entry g.ids g.records where
  spelled _ := Json.IsDump.spellsValue
  decoded _ hdump := Json.decode_spelled hdump.spellsValue
  graph := ofJson?_eq_some_iff.2 rfl
  ids := rfl

/-- Whether a graph with a table is one into which records were put. -/
def IndexedGraph.IsBuilt (g : IndexedGraph) : Prop := ∃ entry rs, g = ofRecords entry rs

theorem IndexedGraph.IsBuilt.recovered {g : IndexedGraph} (h : g.IsBuilt) :
    Recovered g.toJson g.entry g.ids g.records where
  spelled _ := Json.IsDump.spellsValue
  decoded _ hdump := Json.decode_spelled hdump.spellsValue
  graph := Graph.ofJson?_eq_some_iff.2 rfl
  ids := by
    obtain ⟨entry, rs, rfl⟩ := h
    exact (viewsAgree_ofRecords entry rs).aligned

/-- Dumps lose nothing: every dump of a graph is read as the value that was written, all of the
graph is recovered from it, and so graphs that share a dump are the same. -/
theorem dumps_lossless :
    (∀ g : Graph, Recovered g.toJson g.entry g.ids g.records) ∧
    (∀ g : IndexedGraph, g.IsBuilt → Recovered g.toJson g.entry g.ids g.records) ∧
    (∀ (g h : Graph) (text : String), g.toJson.IsDump text → h.toJson.IsDump text → g = h) ∧
    ∀ (g h : IndexedGraph) (text : String), g.IsBuilt → h.IsBuilt →
      g.toJson.IsDump text → h.toJson.IsDump text →
      g.entry = h.entry ∧ g.ids = h.ids ∧ g.records = h.records := by
  refine ⟨Graph.recovered, fun g hg => hg.recovered, ?_, ?_⟩
  · intro g h text hg hh
    obtain ⟨hentry, -, hrecords⟩ := g.recovered.unique h.recovered hg hh
    have hparts : (⟨g.entry, g.records⟩ : Graph) = ⟨h.entry, h.records⟩ := by
      rw [hentry, hrecords]
    exact hparts
  · intro g h text hg hh hdump hdump'
    exact hg.recovered.unique hh.recovered hdump hdump'

/-- A graph with a quote, a backslash and control characters in its code, and with one specifier
that is empty and comes again. -/
def awkwardGraph : Graph where
  entry := ⟨"./a.js"⟩
  records :=
    [⟨⟨"./a.js"⟩, "\"\\\n\x00\x7f", [("", ⟨"./b.js"⟩), ("", ⟨"./a.js"⟩)]⟩, ⟨⟨"./b.js"⟩, "", []⟩]

theorem dumps_awkwardGraph :
    awkwardGraph.toJson.compact =
      "\x7b\"entry\":\"./a.js\",\"modules\":[" ++
        "\x7b\"id\":\"./a.js\",\"dependencies\":\x7b\"\":\"./b.js\",\"\":\"./a.js\"\x7d," ++
        "\"code\":\"\\\"\\\\\\n\\u0000\x7f\"\x7d," ++
        "\x7b\"id\":\"./b.js\",\"dependencies\":\x7b\x7d,\"code\":\"\"\x7d]\x7d" ∧
    Json.decode (awkwardGraph.toJson.pretty 0) = .ok awkwardGraph.toJson ∧
    Graph.ofJson? awkwardGraph.toJson = some awkwardGraph ∧
    ∀ g : Graph, g.toJson.IsDump awkwardGraph.toJson.compact → g = awkwardGraph := by
  obtain ⟨hrecovered, -, hunique, -⟩ := dumps_lossless
  refine ⟨by decide +kernel, ?_, (hrecovered awkwardGraph).graph, ?_⟩
  · exact (hrecovered awkwardGraph).decoded _ (Or.inr ⟨0, rfl⟩)
  · intro g hg
    exact hunique g awkwardGraph _ hg (Or.inl rfl)

end ModuleBundler
