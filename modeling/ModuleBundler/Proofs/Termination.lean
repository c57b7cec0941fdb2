import ModuleBundler.Proofs.BuildRun
import ModuleBundler.Proofs.Locate

/-
  A build over a store comes to an end. Every module that the loop meets, but for the one it starts
  from, is a stored file under a clean path with one of the endings of resolution, whatever the
  transformer asks for; so the identifiers stay under the bound (`Frontier.length_le`), the
  loop ends (`Frontier.exists_runs`), and the bound of the build is never what ends it
  (`buildFrom_eq_of_runs`). With a transformer that keeps the identifiers it is called with, a
  build does the same and calls it for what the loop begins (`buildFrom_recording`).
-/

namespace ModuleBundler.Graph

open Discovery

variable {s : Store} {transform : Transformer Id} {resolver : Resolver}
variable {start l : Located} {visited queue begun : List Located} {g : Graph}
variable {result : Except BuildError Graph}

/-! ## The bound -/

/-- Every module that was met is the start or lies in a file of the store. -/
theorem Frontier.isStored (h : Frontier s.toFiles transform resolver start visited g queue) :
    ∀ l ∈ visited ++ queue, l = start ∨ resolver.IsStored s l := by
  intro l hl
  rcases List.mem_cons.1 (List.mem_of_find?_eq_some (h.first_mention l hl)) with rfl | hmem
  · exact Or.inl rfl
  · obtain ⟨importer, -, htarget⟩ := List.mem_flatMap.1 hmem
    obtain ⟨specifier, hlocate⟩ := exists_locateFrom_of_mem_targetsOf htarget
    exact Or.inr (Resolver.isStored_of_locateFrom hlocate)

/-- What was met stays under the bound of the build. -/
theorem Frontier.length_le (h : Frontier s.toFiles transform resolver start visited g queue) :
    (visited ++ queue).length ≤ moduleLimit s.files.length resolver.settings := by
  obtain ⟨others, hothers⟩ : ∃ others, (visited ++ queue).map (·.id) = start.id :: others := by
    have hknown := h.exploring.known_eq
    rw [rowsOfModules_fst, ← List.map_append, known_eq_cons] at hknown
    exact ⟨_, hknown⟩
  have hnodup := h.nodup
  rw [hothers, List.nodup_cons] at hnodup
  have hle := Resolver.length_le_of_isStored hnodup.2 fun id hid => by
    have hmem : id ∈ (visited ++ queue).map (·.id) := by
      rw [hothers]
      exact List.mem_cons_of_mem _ hid
    obtain ⟨l, hl, rfl⟩ := List.mem_map.1 hmem
    rcases h.isStored l hl with hstart | hstored
    · exact absurd (hstart ▸ hid) hnodup.1
    · exact ⟨l, hstored, rfl⟩
  rw [← List.length_map (·.id), hothers, List.length_cons, moduleLimit]
  exact Nat.succ_le_succ hle

/-- From a state under the invariant the loop comes to its end, and what it begins stays under the
bound. -/
theorem Frontier.exists_runs (h : Frontier s.toFiles transform resolver start visited g queue) :
    ∃ begun result, Runs s.toFiles transform resolver g queue begun result ∧
      visited.length + begun.length ≤ moduleLimit s.files.length resolver.settings := by
  -- Each module that is loaded comes nearer to the bound.
  induction hn : moduleLimit s.files.length resolver.settings - visited.length
    generalizing visited g queue with
  | zero =>
    have hle := h.length_le
    rw [List.length_append] at hle
    match queue with
    | [] => exact ⟨[], _, Runs.done g, hle⟩
    | l :: queue =>
      rw [List.length_cons] at hle
      omega
  | succ n ih =>
    have hle := h.length_le
    rw [List.length_append] at hle
    match queue with
    | [] => exact ⟨[], _, Runs.done g, hle⟩
    | l :: queue =>
      rw [List.length_cons] at hle
      cases hload : load s.toFiles transform resolver l with
      | error e =>
        refine ⟨[l], _, Runs.failed hload, ?_⟩
        rw [List.length_singleton]
        omega
      | ok loaded =>
        obtain ⟨record, targets⟩ := loaded
        obtain ⟨begun, result, hruns, hbegun⟩ := ih (h.turn hload) (by
          rw [List.length_append, List.length_singleton]
          omega)
        refine ⟨l :: begun, result, Runs.turn hload hruns, ?_⟩
        rw [List.length_append, List.length_singleton] at hbegun
        rw [List.length_cons]
        omega

/-! ## Runs and builds -/

/-- A transformer that keeps the identifiers it is called with. -/
def recording (transform : Transformer Id) : Transformer (StateM (List ModuleId)) :=
  fun source id => do
    modify (· ++ [id])
    return transform source id

/-- The identifiers for which loading a module calls the transformer: its own, unless the text
cannot be read. -/
def called (s : Store) (l : Located) : List ModuleId :=
  match s.toFiles.readText (m := Id) l.path with
  | .ok _ => [l.id]
  | .error _ => []

theorem readText_toFiles {m : Type → Type} [Monad m] [LawfulMonad m] (s : Store) (path : String) :
    s.toFiles.readText (m := m) path = pure (s.toFiles.readText (m := Id) path) := by
  simp only [Files.readText, Store.toFiles, pure_bind]
  cases s.read path <;> rfl

theorem locateAll_toFiles {m : Type → Type} [Monad m] [LawfulMonad m] (s : Store)
    (resolver : Resolver) (l : Located) (specifiers : List String) :
    locateAll (m := m) s.toFiles resolver l specifiers =
      pure (locateAll (m := Id) s.toFiles resolver l specifiers) := by
  induction specifiers with
  | nil => rfl
  | cons specifier rest ih =>
    rw [locateAll, locateAll, Resolver.locateFrom_toFiles, pure_bind]
    cases resolver.locateFrom (m := Id) s.toFiles specifier l with
    | error e => rfl
    | ok target =>
      dsimp only
      rw [ih, pure_bind]
      cases locateAll (m := Id) s.toFiles resolver l rest <;> rfl

theorem recording_bind_run {α : Type} (transform : Transformer Id) (source : String)
    (id : ModuleId) (next : Except TransformError Script.ModuleBody → StateM (List ModuleId) α)
    (calls : List ModuleId) : (recording transform source id >>= next).run calls =
      (next (transform source id)).run (calls ++ [id]) :=
  rfl

theorem load_recording (s : Store) (transform : Transformer Id) (resolver : Resolver)
    (l : Located) (calls : List ModuleId) :
    (load s.toFiles (recording transform) resolver l).run calls =
      (load (m := Id) s.toFiles transform resolver l, calls ++ called s l) := by
  rw [load, readText_toFiles, pure_bind, load_eq, called]
  cases s.toFiles.readText (m := Id) l.path with
  | error e =>
    rw [List.append_nil]
    rfl
  | ok source =>
    dsimp only
    rw [recording_bind_run]
    cases transform source l.id with
    | error e => rfl
    | ok body =>
      dsimp only
      rw [locateAll_toFiles, pure_bind]
      cases locateAll (m := Id) s.toFiles resolver l body.specifiers.eraseDups <;> rfl

/-- With enough turns allowed the loop of a build does what a run does. -/
theorem loadAll_of_runs (run : Runs s.toFiles transform resolver g queue begun result)
    {limit n : Nat} (hn : begun.length ≤ n) :
    loadAll (m := Id) s.toFiles transform resolver limit n g queue = result := by
  induction run generalizing n with
  | done g =>
    rw [loadAll]
    rfl
  | failed hload =>
    obtain ⟨n, rfl⟩ := Nat.exists_eq_add_of_le' hn
    rw [List.length_singleton, loadAll, hload]
    rfl
  | turn hload _ ih =>
    rw [List.length_cons] at hn
    match n, hn with
    | n + 1, hn =>
      rw [loadAll, hload]
      exact ih (Nat.le_of_succ_le_succ hn)

/-- The same with a transformer that keeps the identifiers it is called with. -/
theorem loadAll_recording_of_runs (run : Runs s.toFiles transform resolver g queue begun result)
    {limit n : Nat} (hn : begun.length ≤ n) (calls : List ModuleId) :
    (loadAll s.toFiles (recording transform) resolver limit n g queue).run calls =
      (result, calls ++ begun.flatMap (called s)) := by
  induction run generalizing n calls with
  | done g =>
    rw [loadAll, List.flatMap_nil, List.append_nil]
    rfl
  | failed hload =>
    obtain ⟨n, rfl⟩ := Nat.exists_eq_add_of_le' hn
    rw [List.length_singleton, loadAll, StateT.run_bind, load_recording, hload,
      List.flatMap_singleton]
    rfl
  | turn hload _ ih =>
    rw [List.length_cons] at hn
    match n, hn with
    | n + 1, hn =>
      rw [loadAll, StateT.run_bind, load_recording, hload, List.flatMap_cons, ← List.append_assoc]
      exact ih (Nat.le_of_succ_le_succ hn) (calls ++ called s _)

/-- A build over a store is a run of the loop from its start. -/
theorem buildFrom_of_runs
    (run : Runs s.toFiles transform resolver (empty start.id) [start] begun result) :
    buildFrom (m := Id) s.toFiles transform resolver start = result := by
  obtain ⟨begun', result', run', hle⟩ :=
    (frontier_start s.toFiles transform resolver start).exists_runs
  obtain ⟨rfl, rfl⟩ := run.unique run'
  rw [List.length_nil, Nat.zero_add] at hle
  exact loadAll_of_runs run hle

theorem exists_runs_of_start (s : Store) (transform : Transformer Id) (resolver : Resolver)
    (start : Located) : ∃ begun result,
      Runs s.toFiles transform resolver (empty start.id) [start] begun result ∧
        begun.length ≤ moduleLimit s.files.length resolver.settings := by
  have h := (frontier_start s.toFiles transform resolver start).exists_runs
  simpa only [List.length_nil, Nat.zero_add] using h

theorem runs_of_buildFrom
    (h : buildFrom (m := Id) s.toFiles transform resolver start = result) :
    ∃ begun, Runs s.toFiles transform resolver (empty start.id) [start] begun result := by
  obtain ⟨begun, result', run, -⟩ := exists_runs_of_start s transform resolver start
  exact ⟨begun, h ▸ (buildFrom_of_runs run).symm ▸ run⟩

/-! ## Calls of the transformer -/

theorem called_sublist (s : Store) (begun : List Located) :
    (begun.flatMap (called s)).Sublist (begun.map (·.id)) := by
  induction begun with
  | nil => exact List.Sublist.slnil
  | cons l rest ih =>
    rw [List.flatMap_cons, List.map_cons, called]
    split
    · exact ih.cons_cons l.id
    · exact ih.cons l.id

/-- No module is begun twice. -/
theorem Runs.nodup (run : Runs s.toFiles transform resolver (empty start.id) [start] begun result) :
    (begun.map (·.id)).Nodup := by
  have hstart := frontier_start s.toFiles transform resolver start
  cases result with
  | ok g =>
    have hnodup := (run.frontier_of_ok hstart).nodup
    rwa [List.nil_append, List.append_nil] at hnodup
  | error e =>
    obtain ⟨before, l, rest, g', rfl, hfrontier, -⟩ := run.frontier_of_error hstart
    have hnodup := hfrontier.nodup
    rw [List.nil_append, ← List.singleton_append, ← List.append_assoc, List.map_append] at hnodup
    exact (List.nodup_append.1 hnodup).1

/-- For modules that were loaded the transformer was called. -/
theorem called_of_yields {records : List Record}
    (h : List.Forall₂ (Yields s.toFiles transform resolver) begun records) :
    begun.flatMap (called s) = begun.map (·.id) := by
  induction h with
  | nil => rfl
  | cons hyields _ ih =>
    obtain ⟨source, body, hloaded⟩ := hyields.loadedAs
    rw [List.flatMap_cons, called, hloaded.read, ih]
    rfl

/-- Over any store and with any transformer the loop of a build ends by itself, and the build gives
what the loop gives. The transformer is called at most once for each identifier, and in a
build that succeeds for the modules of the graph in their order. -/
theorem buildFrom_recording (s : Store) (transform : Transformer Id) (resolver : Resolver)
    (start : Located) : ∃ begun result calls,
      Runs s.toFiles transform resolver (empty start.id) [start] begun result ∧
      begun.length ≤ moduleLimit s.files.length resolver.settings ∧
      buildFrom (m := Id) s.toFiles transform resolver start = result ∧
      (buildFrom s.toFiles (recording transform) resolver start).run [] = (result, calls) ∧
      calls.Nodup ∧ ∀ g, result = .ok g → calls = g.ids := by
  obtain ⟨begun, result, run, hle⟩ := exists_runs_of_start s transform resolver start
  refine ⟨begun, result, begun.flatMap (called s), run, hle, buildFrom_of_runs run,
    loadAll_recording_of_runs run hle [], run.nodup.sublist (called_sublist s begun), ?_⟩
  rintro g rfl
  have hfrontier := run.frontier_of_ok (frontier_start s.toFiles transform resolver start)
  rw [List.nil_append] at hfrontier
  rw [called_of_yields hfrontier.records, hfrontier.ids]

end ModuleBundler.Graph
