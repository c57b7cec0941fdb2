import ModuleBundler.Bundle.Assemble
import ModuleBundler.Proofs.DiscoveredGraph
import ModuleBundler.Proofs.JsonDecode
import ModuleBundler.Proofs.Statements

/-
  One specifier from the source of a module to the bundle. What a module asks for is written three
  times: as the literal of a call in its code, as a dependency of its record, and as a member of
  the object beside its code in the bundle. In a graph that was built the three agree
  (`faithful_of_buildEntry`), whatever the specifier is spelled like.
-/

namespace ModuleBundler.Graph

open Script (hoistedLinesOf literalsOfLines joinLines stringValue)

variable {s : Store} {files : Files Id} {resolver : Resolver} {entry : String} {g : Graph}
variable {l : Located} {r : Record}

/-! ## Dependencies by their specifiers -/

theorem filter_key_eq_singleton {α : Type} {pairs : List (String × α)} {pair : String × α}
    (hnodup : (pairs.map (·.1)).Nodup) (h : pair ∈ pairs) :
    pairs.filter (·.1 == pair.1) = [pair] := by
  induction pairs with
  | nil => cases h
  | cons p pairs ih =>
    rw [List.map_cons, List.nodup_cons] at hnodup
    rcases List.mem_cons.1 h with rfl | h
    · have hrest : pairs.filter (·.1 == pair.1) = [] := by
        rw [List.filter_eq_nil_iff]
        intro q hq heq
        exact hnodup.1 (beq_iff_eq.1 heq ▸ List.mem_map_of_mem hq)
      rw [List.filter_cons, if_pos (beq_self_eq_true pair.1), hrest]
    · have hne : ¬ (p.1 == pair.1) = true := by
        intro heq
        exact hnodup.1 (beq_iff_eq.1 heq ▸ List.mem_map_of_mem h)
      rw [List.filter_cons, if_neg hne, ih hnodup.2 h]

/-! ## Bundles -/

/-- The table of a bundle holds the entry of every record. -/
theorem tableText_eq_append (strict : Bool) {records : List Record} (h : r ∈ records) :
    ∃ before after, tableText strict records = before ++ tableEntry strict r ++ after := by
  induction records with
  | nil => cases h
  | cons r' records ih =>
    cases records with
    | nil =>
      obtain rfl := List.mem_singleton.1 h
      exact ⟨"", "\n", by rw [tableText, String.empty_append]⟩
    | cons r'' records =>
      rw [tableText]
      rcases List.mem_cons.1 h with rfl | h
      · refine ⟨"", ",\n" ++ tableText strict (r'' :: records), ?_⟩
        rw [String.empty_append, String.append_assoc]
      · obtain ⟨before, after, htext⟩ := ih h
        refine ⟨tableEntry strict r' ++ ",\n" ++ before, after, ?_⟩
        rw [htext]
        simp only [String.append_assoc]
      · simp

/-- A graph that holds its entry and all dependencies makes a bundle with an entry for each of its
records. -/
theorem assemble_eq_append (hentry : g.entry ∈ g.ids) (hclosed : g.isClosed = true)
    (hr : r ∈ g.records) (settings : OutputSettings) :
    ∃ before after, assemble g settings =
      .ok (before ++ tableEntry settings.strict r ++ after) := by
  have hcontains : ¬ (!g.contains g.entry) = true := by
    rw [contains_iff.2 hentry]
    decide
  have hedges : g.openEdges = [] := List.isEmpty_iff.1 hclosed
  obtain ⟨before, after, htable⟩ := tableText_eq_append settings.strict hr
  rw [assemble, if_neg hcontains, hedges]
  dsimp only
  rw [bundleText, htable]
  refine ⟨bannerText settings.banner? ++ loader g.entry.toJson.compact ++ "(\x7b\n" ++ before,
    after ++ "\x7d);\n", ?_⟩
  simp only [String.append_assoc]

/-! ## Specifiers -/

/-- What is known of a record of a graph, of the module it was loaded from, and of the literals
that its hoisted lines call `require` with. -/
structure Faithful (files : Files Id) (resolver : Resolver) (g : Graph) (l : Located) (r : Record)
    (source : String) (lines literals : List String) (members : List (String × Json)) : Prop where
  same_id : r.id = l.id
  read : files.readText l.path = .ok source
  hoisted : hoistedLinesOf source = .ok lines
  /-- The hoisted lines stand at the front of the code. -/
  front : ∃ rest, r.code = joinLines lines ++ rest
  calls : literalsOfLines lines = .ok literals
  decoded : Json.decode r.dependenciesJson.compact = .ok (.object members)
  /-- A literal of a call stands for one dependency, which is what its value is located as, is a
  module of the graph, and is one member of the object in the bundle. -/
  meant : ∀ literal ∈ literals, ∃ target,
    resolver.locateFrom files (stringValue literal) l = .ok target ∧
    r.dependencies.filter (·.1 == stringValue literal) = [(stringValue literal, target.id)] ∧
    target.id ∈ g.ids ∧
    members.filter (·.1 == stringValue literal) = [(stringValue literal, .string target.id.text)]
  /-- Every dependency is asked for by a call. -/
  asked : ∀ d ∈ r.dependencies, ∃ literal ∈ literals, stringValue literal = d.1
  /-- The object stands in the entry of the record in every bundle of the graph. -/
  printed : ∀ settings, ∃ before after, assemble g settings =
    .ok (before ++ tableEntry settings.strict r ++ after)

theorem faithful_of_loadedAs {source : String} {body : Script.ModuleBody}
    (h : LoadedAs files scriptTransformer resolver l source body r) (hentry : g.entry ∈ g.ids)
    (hclosed : g.isClosed = true) (hr : r ∈ g.records) :
    ∃ lines literals members,
      Faithful files resolver g l r source lines literals members := by
  have htransformed : transformScript source = .ok body := h.transformed
  obtain ⟨lines, rest, sources, hlines, hcode, hliterals, hspecifiers⟩ :=
    Script.hoisted_of_ofSource (Resolver.ok_of_mapError_ok htransformed)
  have hkeys : r.dependencies.map (·.1) = sources.eraseDups.eraseDups := by
    rw [h.specifiers, hspecifiers]
  have hnodup : (r.dependencies.map (·.1)).Nodup := by
    rw [hkeys]
    exact Discovery.nodup_eraseDups _
  have hmem : ∀ specifier, specifier ∈ r.dependencies.map (·.1) ↔ specifier ∈ sources := by
    intro specifier
    rw [hkeys, List.mem_eraseDups, List.mem_eraseDups]
  refine ⟨lines, sources.map Script.quote, r.dependencies.map fun d => (d.1, d.2.toJson), h.same_id,
    h.read, hlines, ⟨rest, h.code.trans hcode⟩, hliterals, Json.decode_compact _, ?_, ?_,
    assemble_eq_append hentry hclosed hr⟩
  · intro literal hliteral
    obtain ⟨specifier, hspecifier, rfl⟩ := List.mem_map.1 hliteral
    rw [Script.stringValue_quote]
    obtain ⟨d, hd, rfl⟩ := List.mem_map.1 ((hmem specifier).2 hspecifier)
    obtain ⟨target, hlocated, hid⟩ := h.located d hd
    refine ⟨target, hlocated, ?_, ?_, ?_⟩
    · rw [filter_key_eq_singleton hnodup hd, hid]
    · rw [hid]
      exact isClosed_iff.1 hclosed r hr d hd
    · rw [List.filter_map, hid]
      show (r.dependencies.filter (·.1 == d.1)).map _ = _
      rw [filter_key_eq_singleton hnodup hd]
      rfl
  · intro d hd
    refine ⟨Script.quote d.1, ?_, Script.stringValue_quote d.1⟩
    exact List.mem_map_of_mem ((hmem d.1).1 (List.mem_map_of_mem hd))

/-- In a graph that is built from an entry path, every record is faithful to the module it was
loaded from: each literal that its hoisted lines call `require` with stands for one dependency, in
the record and in the bundle alike, and there are no other dependencies. -/
theorem faithful_of_buildEntry
    (h : buildEntry (m := Id) s.toFiles scriptTransformer resolver entry = .ok g) :
    ∃ start modules, resolver.locateEntry (m := Id) s.toFiles entry = .ok start ∧
      Runs s.toFiles scriptTransformer resolver (empty start.id) [start] modules (.ok g) ∧
      List.Forall₂ (fun l r => ∃ source lines literals members,
        Faithful s.toFiles resolver g l r source lines literals members) modules g.records := by
  obtain ⟨start, modules, hentry, run⟩ := runs_of_buildEntry h
  have hdiscovered := (run.frontier_of_ok (frontier_start _ _ resolver start)).discovered
  rw [List.nil_append] at hdiscovered
  have hmem : g.entry ∈ g.ids := List.mem_of_mem_head? hdiscovered.entry_first
  refine ⟨start, modules, hentry, run, ?_⟩
  have hloaded := hdiscovered.loaded
  rw [List.forall₂_iff_get] at hloaded ⊢
  refine ⟨hloaded.1, fun i hi hi' => ?_⟩
  obtain ⟨source, body, hload⟩ := hloaded.2 i hi hi'
  exact ⟨source, faithful_of_loadedAs hload hmem hdiscovered.closed (List.get_mem _ _)⟩

/-! ## A specifier in two spellings -/

/-- A module that names another one, with a quote in its name, by two literals. -/
def quoteStore : Store := .ofFiles
  [("/p/m.js", Text.encode "import './\\x22a';\nimport \"./\\\"a\";\n"),
   ("/p/\"a.js", Text.encode "import './m.js';\nexport const x = 1;\n")]

/-- The graph of these modules. -/
def quoteGraph : Graph where
  entry := ⟨"./m.js"⟩
  records :=
    [⟨⟨"./m.js"⟩, "require(\"./\\\"a\");\nrequire(\"./\\\"a\");\n\n\n",
      [("./\"a", ⟨"./\"a.js"⟩)]⟩,
     ⟨⟨"./\"a.js"⟩, "require(\"./m.js\");\n\nconst x = 1;\nexports.x = x;\n",
      [("./m.js", ⟨"./m.js"⟩)]⟩]

theorem faithful_quoteGraph :
    buildEntry (m := Id) quoteStore.toFiles scriptTransformer ⟨"/p", {}⟩ "m.js" = .ok quoteGraph ∧
    ∃ start modules,
      Resolver.locateEntry (m := Id) quoteStore.toFiles ⟨"/p", {}⟩ "m.js" = .ok start ∧
      Runs quoteStore.toFiles scriptTransformer ⟨"/p", {}⟩ (empty start.id) [start] modules
        (.ok quoteGraph) ∧
      List.Forall₂ (fun l r => ∃ source lines literals members,
        Faithful quoteStore.toFiles ⟨"/p", {}⟩ quoteGraph l r source lines literals members)
        modules quoteGraph.records := by
  have hbuild :
      buildEntry (m := Id) quoteStore.toFiles scriptTransformer ⟨"/p", {}⟩ "m.js" =
        .ok quoteGraph := by
    show @Eq (Except BuildError Graph) _ _
    decide +kernel
  exact ⟨hbuild, faithful_of_buildEntry hbuild⟩

end ModuleBundler.Graph
