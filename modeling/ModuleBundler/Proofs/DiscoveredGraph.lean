import ModuleBundler.Proofs.Termination

/-
  The graph of a build that succeeds. Its modules stand in the order of breadth-first discovery
  from the entry, its records hold what loading their modules gave, and every dependency is a
  module of the graph (`discovered_of_buildEntry`).
-/

namespace ModuleBundler.Graph

open Discovery

variable {files : Files Id} {s : Store} {transform : Transformer Id} {resolver : Resolver}
variable {start : Located} {entry : String} {g : Graph} {modules : List Located}

/-- The modules of a graph with the modules they depend on. -/
def rows (g : Graph) : List (ModuleId × List ModuleId) :=
  g.records.map fun r => (r.id, r.dependencies.map (·.2))

theorem rows_fst (g : Graph) : g.rows.map (·.1) = g.ids := by
  rw [rows, List.map_map]
  rfl

theorem rows_of_yields {records : List Record}
    (h : List.Forall₂ (Yields files transform resolver) modules records) :
    rowsOfModules files transform resolver modules =
      records.map fun r => (r.id, r.dependencies.map (·.2)) := by
  induction h with
  | nil => rfl
  | cons hyields _ ih =>
    rw [rowsOfModules, List.map_cons, List.map_cons, ← rowsOfModules, ih, hyields.id_eq,
      hyields.targets_ids]

/-- What is known of a graph that was built from a start, and of the files its modules were read
from. -/
structure Discovered (files : Files Id) (transform : Transformer Id) (resolver : Resolver)
    (start : Located) (modules : List Located) (g : Graph) : Prop where
  entry : g.entry = start.id
  entry_first : g.ids.head? = some g.entry
  nodup : g.ids.Nodup
  stored : ∀ r ∈ g.records, g.get? r.id = some r
  closed : g.isClosed = true
  /-- Each record holds what one module was loaded as. -/
  loaded : List.Forall₂ (fun l r => ∃ source body,
    LoadedAs files transform resolver l source body r) modules g.records
  /-- Each module was read from the file that the first mention of its identifier means. -/
  first_mention : ∀ l ∈ modules, (start :: modules.flatMap
    (targetsOf files transform resolver)).find? (·.id == l.id) = some l
  /-- The modules stand in the order of discovery. -/
  breadthFirst : BreadthFirst g.entry g.rows

theorem Frontier.discovered (h : Frontier files transform resolver start modules g []) :
    Discovered files transform resolver start modules g := by
  have hrows : rowsOfModules files transform resolver modules = g.rows := rows_of_yields h.records
  have hbreadth : BreadthFirst g.entry g.rows := by
    have hexploring := h.exploring
    rw [hrows, List.map_nil, ← h.entry] at hexploring
    exact hexploring.breadthFirst
  have hnodup : g.ids.Nodup := rows_fst g ▸ hbreadth.nodup
  refine ⟨h.entry, rows_fst g ▸ hbreadth.root_first, hnodup, fun r hr => get?_eq_some hnodup hr,
    ?_, h.records.imp fun l r hyields => hyields.loadedAs, ?_, hbreadth⟩
  · rw [isClosed_iff]
    intro r hr d hd
    rw [← rows_fst g]
    exact hbreadth.closed _ (List.mem_map_of_mem hr) _ (List.mem_map_of_mem hd)
  · have hfirst := h.first_mention
    rwa [List.append_nil] at hfirst

/-- A build that succeeds found its entry, and ran the loop from there. -/
theorem runs_of_buildEntry
    (h : buildEntry (m := Id) s.toFiles transform resolver entry = .ok g) :
    ∃ start modules, resolver.locateEntry (m := Id) s.toFiles entry = .ok start ∧
      Runs s.toFiles transform resolver (empty start.id) [start] modules (.ok g) := by
  rw [buildEntry] at h
  cases hentry : resolver.locateEntry (m := Id) s.toFiles entry with
  | error e =>
    rw [hentry] at h
    cases h
  | ok start =>
    rw [hentry] at h
    obtain ⟨modules, run⟩ := runs_of_buildFrom h
    exact ⟨start, modules, rfl, run⟩

/-- A graph that is built from an entry path is that of a breadth-first discovery: the entry comes
first, no identifier twice, every dependency is a module of the graph, and each module other than
the entry stands where the first dependency on it puts it. -/
theorem discovered_of_buildEntry
    (h : buildEntry (m := Id) s.toFiles transform resolver entry = .ok g) :
    ∃ start modules, resolver.locateEntry (m := Id) s.toFiles entry = .ok start ∧
      Discovered s.toFiles transform resolver start modules g := by
  obtain ⟨start, modules, hentry, run⟩ := runs_of_buildEntry h
  have hfrontier := run.frontier_of_ok (frontier_start s.toFiles transform resolver start)
  exact ⟨start, modules, hentry, hfrontier.discovered⟩

/-! ## A pair of modules -/

/-- Two modules that depend on each other, one of which names the other twice. -/
def pairStore : Store := .ofFiles
  [("/p/m.js", Text.encode "import { x } from './a';\nimport './a';\n"),
   ("/p/a.js", Text.encode "import './m.js';\nexport const x = 1;\n")]

/-- Resolution with its usual settings in the directory of these modules. -/
def pairResolver : Resolver := ⟨"/p", {}⟩

/-- The graph of these modules. -/
def pairGraph : Graph where
  entry := ⟨"./m.js"⟩
  records :=
    [⟨⟨"./m.js"⟩, "var __weld_import_0 = require(\"./a\"); var x = __weld_import_0.x;\n" ++
        "require(\"./a\");\n\n\n", [("./a", ⟨"./a.js"⟩)]⟩,
     ⟨⟨"./a.js"⟩, "require(\"./m.js\");\n\nconst x = 1;\nexports.x = x;\n",
      [("./m.js", ⟨"./m.js"⟩)]⟩]

theorem discovered_pairGraph :
    buildEntry (m := Id) pairStore.toFiles scriptTransformer pairResolver "m.js" = .ok pairGraph ∧
    ∃ start modules,
      pairResolver.locateEntry (m := Id) pairStore.toFiles "m.js" = .ok start ∧
      Discovered pairStore.toFiles scriptTransformer pairResolver start modules pairGraph := by
  have hbuild :
      buildEntry (m := Id) pairStore.toFiles scriptTransformer pairResolver "m.js" =
        .ok pairGraph := by
    show @Eq (Except BuildError Graph) _ _
    decide +kernel
  exact ⟨hbuild, discovered_of_buildEntry hbuild⟩

end ModuleBundler.Graph
