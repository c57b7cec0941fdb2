import ModuleBundler.Proofs.DiscoveredGraph
import ModuleBundler.Proofs.Effect

/-
  What becomes of the modules when their bundle is written. The path of a bundle is made from the
  settings and the name of the entry, and is not compared with the paths of the modules. The graph
  of a bundle is that of a build over the files as they were (`buildEntry_of_bundle`). Of its
  modules, one that lies in another file is left as it was, and one in the file that the path leads
  to is replaced by the bundle (`leavesModules_of_bundle`).
-/

namespace ModuleBundler.Store

open ModuleBundler.Graph (Discovered)

variable {s s' : Store} {transform : Transformer Id} {milliseconds : Nat} {settings : BuildSettings}
  {b : Bundle}

/-! ## The graph of a bundle -/

/-- A pure transformer leaves the store alone. -/
theorem readsOnly_pureTransformer (transform : Transformer Id) (source : String) (id : ModuleId) :
    ReadsOnly (pure (transform source id)) :=
  readsOnly_pure _

/-- The graph that comes with a bundle is the one that was built over the files of the store as they
were. -/
theorem buildEntry_of_bundle
    (h : bundle fileSystem (fun source id => pure (transform source id)) milliseconds settings s =
      (.ok b, s')) :
    Graph.buildEntry (m := Id) s.toFiles transform ⟨settings.root, settings.resolve⟩
      settings.entry = .ok b.graph := by
  rcases buildGraph_cases (readsOnly_pureTransformer transform) settings s with
    ⟨e, hgraph⟩ | ⟨graph, hgraph⟩
  · cases (bundle_of_error milliseconds settings s hgraph).symm.trans h
  · have hsame : b.graph = graph := by
      rcases bundle_of_graph milliseconds settings s hgraph with ⟨e, hcase⟩ |
        ⟨path, e, made, -, hcase⟩ | ⟨code, -, hcase⟩ | ⟨path, code, made, -, -, -, hcase⟩
      · cases hcase.symm.trans h
      · cases hcase.symm.trans h
      · cases hcase.symm.trans h
        rfl
      · cases hcase.symm.trans h
        rfl
    unfold buildGraph at hgraph
    rw [bind_apply, buildEntry_fileSystem] at hgraph
    rw [hsame]
    exact Resolver.ok_of_mapError_ok (congrArg Prod.fst hgraph)

/-- The modules of a bundle as they were read before it was written. -/
theorem exists_discovered_of_bundle
    (h : bundle fileSystem (fun source id => pure (transform source id)) milliseconds settings s =
      (.ok b, s')) :
    ∃ start modules,
      Resolver.locateEntry (m := Id) s.toFiles ⟨settings.root, settings.resolve⟩ settings.entry =
        .ok start ∧
      Discovered s.toFiles transform ⟨settings.root, settings.resolve⟩ start modules b.graph := by
  obtain ⟨start, modules, hentry, run⟩ := Graph.runs_of_buildEntry (buildEntry_of_bundle h)
  have hfrontier := run.frontier_of_ok (Graph.frontier_start s.toFiles transform _ start)
  exact ⟨start, modules, hentry, hfrontier.discovered⟩

/-! ## What is read afterwards -/

/-- What is read where one file was put into a store with the same files. -/
theorem read_put {made : Store} (hmade : made.files = s.files) (path : String)
    (content : ByteArray) (p : String) :
    (made.put (normalize path) content).read p =
      if normalize p = normalize path then .ok content else s.read p := by
  rw [read, read, lookup_put, hmade]
  by_cases hp : normalize p = normalize path
  · rw [if_pos hp, if_pos hp]
  · rw [if_neg hp, if_neg hp]

/-- What has become of the modules that a bundle is made of, which were read from a store, when the
bundle has been written: each of them keeps its bytes, unless it lies in the file to which the path
of the bundle leads, and that file holds the bundle. -/
def LeavesModules (transform : Transformer Id) (settings : BuildSettings) (milliseconds : Nat)
    (s s' : Store) (b : Bundle) : Prop :=
  ∃ start modules,
    Resolver.locateEntry (m := Id) s.toFiles ⟨settings.root, settings.resolve⟩ settings.entry =
      .ok start ∧
    Discovered s.toFiles transform ⟨settings.root, settings.resolve⟩ start modules b.graph ∧
    ∃ path, b.path? = some path ∧ path = outputPath settings b.graph.entry milliseconds ∧
      ∀ l ∈ modules, s'.read l.path =
        if normalize l.path = normalize path then .ok (Text.encode b.code) else s.read l.path

/-- A bundle that is written replaces no module but one in the file of its own path. -/
theorem leavesModules_of_bundle
    (h : bundle fileSystem (fun source id => pure (transform source id)) milliseconds settings s =
      (.ok b, s'))
    (hwrite : settings.output.write = true) :
    LeavesModules transform settings milliseconds s s' b := by
  obtain ⟨start, modules, hentry, hdiscovered⟩ := exists_discovered_of_bundle h
  refine ⟨start, modules, hentry, hdiscovered, ?_⟩
  rcases bundle_cases (readsOnly_pureTransformer transform) milliseconds settings s with
    ⟨e, hcase⟩ | ⟨e, hcase⟩ | ⟨path, e, made, -, hcase⟩ | ⟨code, graph, hunwritten, -⟩ |
    ⟨path, code, graph, made, -, hpath, hmade, hcase⟩
  · cases hcase.symm.trans h
  · cases hcase.symm.trans h
  · cases hcase.symm.trans h
  · cases hwrite.symm.trans hunwritten
  · cases hcase.symm.trans h
    exact ⟨path, rfl, hpath, fun l _ => read_put hmade path _ l.path⟩

/-! ## A bundle in the place of its entry -/

/-- A project of two modules. -/
def sourceStore : Store := ofFiles
  [("/p/src/main.js", Text.encode "import './util.js';\nrun();\n"),
   ("/p/src/util.js", Text.encode "export const x = 1;\n")]

/-- Settings that put the bundle where the entry is. -/
def sourceSettings : BuildSettings where
  entry := "src/main.js"
  root := "/p"
  output := { directory := "src", fileName := "[name].js" }

/-- What making the bundle of the project comes to. -/
def sourceResult : Except BundleError Bundle × Store :=
  bundle fileSystem scriptTransformer 0 sourceSettings sourceStore

theorem leavesModules_sourceStore : ∃ b s', sourceResult = (.ok b, s') ∧
    sourceSettings.output.write = true ∧
    LeavesModules scriptTransformer sourceSettings 0 sourceStore s' b := by
  have hok : sourceResult.1.toOption.isSome = true := by decide +kernel
  match hresult : sourceResult with
  | (.error e, s') =>
    rw [hresult] at hok
    cases hok
  | (.ok b, s') => exact ⟨b, s', rfl, rfl, leavesModules_of_bundle hresult rfl⟩

/-- The entry, which was read as the first module of the graph, is gone when its bundle has been
made. -/
theorem entry_replaced_by_bundle :
    (sourceResult.1.toOption.map fun b => (b.path?, b.graph.ids)) =
      some (some "/p/src/main.js", [⟨"./src/main.js"⟩, ⟨"./src/util.js"⟩]) ∧
    sourceSettings.output.write = true ∧
    Resolver.locateEntry (m := Id) sourceStore.toFiles
        ⟨sourceSettings.root, sourceSettings.resolve⟩ sourceSettings.entry =
      .ok ⟨⟨"./src/main.js"⟩, "/p/src/main.js", "src/main.js"⟩ ∧
    sourceResult.2.read "/p/src/main.js" ≠ sourceStore.read "/p/src/main.js" ∧
    sourceResult.2.read "/p/src/util.js" = sourceStore.read "/p/src/util.js" := by
  refine ⟨by decide +kernel, rfl, ?_, by decide +kernel, by decide +kernel⟩
  show @Eq (Except ResolveError Located) _ _
  decide +kernel

end ModuleBundler.Store
