import ModuleBundler.Bundle.Write
import ModuleBundler.Proofs.Simulation
import ModuleBundler.Proofs.Store

/-
  What making a bundle does to a store. Everything up to the finished script only reads
  (`readsOnly_buildGraph`), as long as the transformer does. Writing has two steps: the directory of
  the file is made, which leaves all files alone, and the file is put (`writeOutput_cases`). So a
  bundle that fails leaves every file as it was, and one that is written changes one file, from
  which its script is read back (`effect_bundle`).
-/

namespace ModuleBundler

/-! ## Reading only -/

theorem bind_apply {σ α β : Type} (x : StateM σ α) (f : α → StateM σ β) (st : σ) :
    (x >>= f) st = f (x st).1 (x st).2 := rfl

/-- Whether a program that runs on a store leaves the store as it was. -/
def ReadsOnly {α : Type} (x : StateM Store α) : Prop := ∀ s, (x s).2 = s

theorem readsOnly_pure {α : Type} (a : α) : ReadsOnly (pure a) := fun _ => rfl

theorem ReadsOnly.bind {α β : Type} {x : StateM Store α} {f : α → StateM Store β}
    (hx : ReadsOnly x) (hf : ∀ a, ReadsOnly (f a)) : ReadsOnly (x >>= f) := by
  intro s
  show (f (x s).1 (x s).2).2 = s
  rw [hf, hx]

/-- Programs that only read, each of them related to any other. -/
def reading : Simulation (StateM Store) (StateM Store) where
  rel x _ := ReadsOnly x
  rel_pure := readsOnly_pure
  rel_bind := ReadsOnly.bind

theorem reading_fileSystem :
    reading.RelatesFiles Store.fileSystem.toFiles Store.fileSystem.toFiles where
  isFile _ _ := rfl
  read _ _ := rfl
  capacity _ := rfl

theorem readsOnly_buildGraph {transform : Transformer (StateM Store)}
    (htransform : ∀ source id, ReadsOnly (transform source id)) (settings : BuildSettings) :
    ReadsOnly (buildGraph Store.fileSystem.toFiles transform settings) := by
  have hbuild (r : Resolver) : reading.rel
      (Graph.buildEntry Store.fileSystem.toFiles transform r settings.entry)
      (Graph.buildEntry Store.fileSystem.toFiles transform r settings.entry) :=
    Simulation.buildEntry reading_fileSystem htransform r settings.entry
  exact ReadsOnly.bind (hbuild _) fun _ => readsOnly_pure _

/-! ## Writing -/

namespace Store

variable {s s' : Store} {path code : String}

/-- Making the directory of a file leaves all files as they were. -/
theorem files_makeParent (path : String) (s : Store) :
    (makeParent fileSystem path s).2.files = s.files := by
  unfold makeParent
  cases Path.parent? path with
  | none => rfl
  | some directory =>
    dsimp only
    by_cases hempty : directory.isEmpty = true
    · rw [if_pos hempty]
      rfl
    · rw [if_neg hempty, bind_apply]
      show ((if s.isDirectory directory = true then pure (.ok ())
        else fileSystem.createDirectories directory : StateM Store _) s).2.files = s.files
      by_cases hthere : s.isDirectory directory = true
      · rw [if_pos hthere]
        rfl
      · rw [if_neg hthere]
        rcases s.createDirectories_cases directory with ⟨file, -, -, h⟩ | ⟨-, s', h, hfiles, -⟩
        · rw [fileSystem_createDirectories_of_error h]
        · rw [fileSystem_createDirectories_of_ok h]
          exact hfiles

/-- Writing a bundle either fails and leaves all files as they were, or puts this one file. -/
theorem writeOutput_cases (path code : String) (s : Store) : ∃ made : Store,
    made.files = s.files ∧
      ((∃ e, writeOutput fileSystem path code s = (.error (.output path e), made)) ∨
        writeOutput fileSystem path code s =
          (.ok (), made.put (normalize path) (Text.encode code))) := by
  have hmade := files_makeParent path s
  unfold writeOutput
  rw [bind_apply]
  generalize makeParent fileSystem path s = result at hmade ⊢
  obtain ⟨made?, made⟩ := result
  refine ⟨made, hmade, ?_⟩
  cases made? with
  | error e => exact Or.inl ⟨e, rfl⟩
  | ok _ =>
    dsimp only
    rw [bind_apply]
    rcases made.write_cases path (Text.encode code) with ⟨-, h⟩ | ⟨-, h⟩
    · rw [fileSystem_write_of_error h]
      exact Or.inl ⟨_, rfl⟩
    · rw [fileSystem_write_of_ok h]
      exact Or.inr rfl

/-- A text that was put is read back from every path with the same stored spelling. -/
theorem readText_put (s : Store) (path code : String) :
    fileSystem.toFiles.readText path (s.put (normalize path) (Text.encode code)) =
      (.ok code, s.put (normalize path) (Text.encode code)) := by
  have hread : fileSystem.toFiles.read path (s.put (normalize path) (Text.encode code)) =
      (.ok (Text.encode code), s.put (normalize path) (Text.encode code)) := by
    show ((s.put (normalize path) (Text.encode code)).read path, _) = _
    rw [read, lookup_put, if_pos rfl]
  unfold Files.readText
  rw [bind_apply, hread]
  show (textOf path (Text.encode code), s.put (normalize path) (Text.encode code)) = _
  rw [textOf, Text.decode_encode]

/-! ## The effect of a bundle -/

/-- What has become of a store when a bundle was asked for: nothing where the graph or the script
could not be made or the script is not to be written, and no change to files where it could not be
written. A script that was written is what its path reads as, and all other files are as before. -/
def Effect (settings : BuildSettings) (milliseconds : Nat) (s : Store) :
    Except BundleError Bundle × Store → Prop
  | (.error (.build _), s') => s' = s
  | (.error (.assemble _), s') => s' = s
  | (.error (.output _ _), s') => s'.files = s.files
  | (.error (.config _), _) => False
  | (.ok bundle, s') =>
    match bundle.path? with
    | none => settings.output.write = false ∧ s' = s
    | some path => settings.output.write = true ∧
        path = outputPath settings bundle.graph.entry milliseconds ∧
        fileSystem.toFiles.readText path s' = (.ok bundle.code, s') ∧
        (∀ file, file ≠ normalize path → s'.files.lookup file = s.files.lookup file) ∧
        ∀ file, file ∈ s'.paths ↔ file = normalize path ∨ file ∈ s.paths

section Bundling

variable {transform : Transformer (StateM Store)}
  (htransform : ∀ source id, ReadsOnly (transform source id)) (milliseconds : Nat)
  (settings : BuildSettings) (s : Store)

/-- What a bundle can come to when its graph is there: it is not assembled, it fails to be written,
it is not to be written, or its file is put. -/
theorem bundle_of_graph {graph : Graph}
    (hgraph : buildGraph fileSystem.toFiles transform settings s = (.ok graph, s)) :
    (∃ e, bundle fileSystem transform milliseconds settings s = (.error (.assemble e), s)) ∨
    (∃ (path : String) (e : FileError) (made : Store), made.files = s.files ∧
      bundle fileSystem transform milliseconds settings s = (.error (.output path e), made)) ∨
    (∃ code, settings.output.write = false ∧
      bundle fileSystem transform milliseconds settings s = (.ok ⟨none, code, graph⟩, s)) ∨
    ∃ (path code : String) (made : Store), settings.output.write = true ∧
      path = outputPath settings graph.entry milliseconds ∧ made.files = s.files ∧
      bundle fileSystem transform milliseconds settings s =
        (.ok ⟨some path, code, graph⟩, made.put (normalize path) (Text.encode code)) := by
  unfold bundle
  rw [bind_apply, hgraph]
  dsimp only
  cases assemble graph settings.output with
  | error e => exact Or.inl ⟨e, rfl⟩
  | ok code =>
    dsimp only
    by_cases hwrite : settings.output.write = true
    · rw [if_pos hwrite, bind_apply]
      obtain ⟨made, hmade, ⟨e, h⟩ | h⟩ :=
        writeOutput_cases (outputPath settings graph.entry milliseconds) code s
      · rw [h]
        exact Or.inr (Or.inl ⟨_, e, made, hmade, rfl⟩)
      · rw [h]
        exact Or.inr (Or.inr (Or.inr ⟨_, code, made, hwrite, rfl, hmade, rfl⟩))
    · rw [if_neg hwrite]
      exact Or.inr (Or.inr (Or.inl ⟨code, by simpa using hwrite, rfl⟩))

/-- Without a graph there is no bundle. -/
theorem bundle_of_error {e : BuildError}
    (hgraph : buildGraph fileSystem.toFiles transform settings s = (.error (.build e), s)) :
    bundle fileSystem transform milliseconds settings s = (.error (.build e), s) := by
  unfold bundle
  rw [bind_apply, hgraph]
  rfl

include htransform

/-- A graph that is asked for leaves the store alone, and if there is none the build says why. -/
theorem buildGraph_cases :
    (∃ e, buildGraph fileSystem.toFiles transform settings s = (.error (.build e), s)) ∨
      ∃ graph, buildGraph fileSystem.toFiles transform settings s = (.ok graph, s) := by
  have hsame := readsOnly_buildGraph htransform settings s
  unfold buildGraph at hsame ⊢
  rw [bind_apply] at hsame ⊢
  generalize Graph.buildEntry fileSystem.toFiles transform _ settings.entry s = result at hsame ⊢
  obtain ⟨graph?, s'⟩ := result
  have hs : s' = s := hsame
  cases graph? with
  | error e => exact Or.inl ⟨e, by rw [hs]; rfl⟩
  | ok graph => exact Or.inr ⟨graph, by rw [hs]; rfl⟩

/-- What a bundle can come to: it fails before it writes, it fails to write, it is not to be
written, or its file is put. -/
theorem bundle_cases :
    (∃ e, bundle fileSystem transform milliseconds settings s = (.error (.build e), s)) ∨
    (∃ e, bundle fileSystem transform milliseconds settings s = (.error (.assemble e), s)) ∨
    (∃ (path : String) (e : FileError) (made : Store), made.files = s.files ∧
      bundle fileSystem transform milliseconds settings s = (.error (.output path e), made)) ∨
    (∃ code graph, settings.output.write = false ∧
      bundle fileSystem transform milliseconds settings s = (.ok ⟨none, code, graph⟩, s)) ∨
    ∃ (path code : String) (graph : Graph) (made : Store), settings.output.write = true ∧
      path = outputPath settings graph.entry milliseconds ∧ made.files = s.files ∧
      bundle fileSystem transform milliseconds settings s =
        (.ok ⟨some path, code, graph⟩, made.put (normalize path) (Text.encode code)) := by
  rcases buildGraph_cases htransform settings s with ⟨e, hgraph⟩ | ⟨graph, hgraph⟩
  · exact Or.inl ⟨e, bundle_of_error milliseconds settings s hgraph⟩
  · rcases bundle_of_graph milliseconds settings s hgraph with h | h | ⟨code, h⟩ |
      ⟨path, code, made, h⟩
    · exact Or.inr (Or.inl h)
    · exact Or.inr (Or.inr (Or.inl h))
    · exact Or.inr (Or.inr (Or.inr (Or.inl ⟨code, graph, h⟩)))
    · exact Or.inr (Or.inr (Or.inr (Or.inr ⟨path, code, graph, made, h⟩)))

/-- A bundle changes files only when it is written, and then this one file only, as long as the
transformer itself leaves the store alone. -/
theorem effect_bundle :
    Effect settings milliseconds s (bundle fileSystem transform milliseconds settings s) := by
  rcases bundle_cases htransform milliseconds settings s with ⟨e, h⟩ | ⟨e, h⟩ |
    ⟨path, e, made, hmade, h⟩ | ⟨code, graph, hwrite, h⟩ |
    ⟨path, code, graph, made, hwrite, hpath, hmade, h⟩
  · rw [h]
    exact rfl
  · rw [h]
    exact rfl
  · rw [h]
    exact hmade
  · rw [h]
    exact ⟨hwrite, rfl⟩
  · rw [h]
    refine ⟨hwrite, hpath, readText_put made path code, fun file hfile => ?_, fun file => ?_⟩
    · rw [lookup_put, if_neg hfile, hmade]
    · rw [mem_paths_put, paths, paths, hmade]

end Bundling

/-- A project of one module. -/
def mainStore : Store := ofFiles [("/p/main.js", Text.encode "run();\n")]

/-- The settings of the project, which leave all options as they are. -/
def mainSettings : BuildSettings := { entry := "main.js", root := "/p" }

theorem effect_bundle_mainStore :
    (∀ source id, ReadsOnly (scriptTransformer source id)) ∧
    Effect mainSettings 0 mainStore (bundle fileSystem scriptTransformer 0 mainSettings mainStore) ∧
    (bundle fileSystem scriptTransformer 0 mainSettings mainStore).2.paths =
      ["/p/dist/bundle.js", "/p/main.js"] :=
  have hreads : ∀ source id, ReadsOnly (scriptTransformer source id) := fun _ _ => readsOnly_pure _
  ⟨hreads, effect_bundle hreads 0 mainSettings mainStore, by decide +kernel⟩

end Store

end ModuleBundler
