import Mathlib.Data.Set.Function
import ModuleBundler.Proofs.BuildRun
import ModuleBundler.Proofs.Locate
import ModuleBundler.Proofs.Lowercase

/-
  Builds where case does not count. Resolution tries the same paths and gives the same files, with
  the identifiers in lower case (`probed_withoutCase`). If no two files below the root differ in
  case only, identifiers of stored modules differ in lower case too (`lowered_injOn`), so looking
  an identifier up in the graph or in the queue has the same answer, and the loop of a build goes
  through the same modules in the same order (`loadAll_withoutCase`).
-/

namespace ModuleBundler

/-! ## Lower case of what a build makes -/

/-- An identifier in lower case. -/
def ModuleId.lowered (id : ModuleId) : ModuleId := ⟨Text.toLower id.text⟩

/-- A module in the same file under its identifier in lower case. -/
def Located.lowered (l : Located) : Located := { l with id := l.id.lowered }

/-- A record with all identifiers in lower case. -/
def Record.lowered (r : Record) : Record :=
  ⟨r.id.lowered, r.code, r.dependencies.map fun d => (d.1, d.2.lowered)⟩

/-- A graph with all identifiers in lower case. -/
def Graph.lowered (g : Graph) : Graph := ⟨g.entry.lowered, g.records.map Record.lowered⟩

/-- An error of resolution with the importing module in lower case. -/
def ResolveError.lowered : ResolveError → ResolveError
  | .unsupported specifier importer => .unsupported specifier (Text.toLower importer)
  | .escapesRoot specifier importer => .escapesRoot specifier (Text.toLower importer)
  | .notFound specifier importer tried => .notFound specifier (Text.toLower importer) tried

/-- A fault with the importing module in lower case. -/
def BuildFault.lowered : BuildFault → BuildFault
  | .resolve e => .resolve e.lowered
  | fault => fault

/-- An error of the same kind about the same specifier, with the module in lower case. -/
def BuildError.lowered (e : BuildError) : BuildError :=
  ⟨e.module?.map ModuleId.lowered, e.specifier?, e.fault.lowered⟩

/-- The outcome of a step with its identifiers in lower case. -/
def loweredBy {α : Type} (lower : α → α) : Except BuildError α → Except BuildError α
  | .ok a => .ok (lower a)
  | .error e => .error e.lowered

theorem ProbeError.lowered_about (e : ProbeError) (specifier importer : String) :
    (e.about specifier importer).lowered = e.about specifier (Text.toLower importer) := by
  cases e <;> rfl

theorem toLower_entryImporter :
    Text.toLower Resolver.entryImporter = Resolver.entryImporter := by decide +kernel

theorem ModuleId.lowered_ofClean (clean : String) :
    (ofClean clean true).lowered = ofClean clean false := by
  have hlower : Text.toLower ("./" ++ clean) = "./" ++ Text.toLower clean := by
    have hslash := Text.lowerAfter_append_separator (c := '/') rfl [] ['.'] clean.toList
    have hlower : (Text.toLower clean).toList = Text.lowerAfter [] clean.toList :=
      String.toList_ofList
    apply String.toList_injective
    rw [Text.toLower, String.toList_ofList, String.toList_append, String.toList_append, hlower]
    exact hslash
  rw [lowered, ofClean, ofClean, if_pos rfl, if_neg Bool.false_ne_true, hlower]

/-! ## Files that differ in more than case -/

/-- The path of a stored file from a root on, if the file lies below the root. -/
def Store.relativeTo? (root file : String) : Option String :=
  let front := (Path.withSlashes (Path.lead root)).toList
  let relative := String.ofList (file.toList.drop front.length)
  if front.isPrefixOf file.toList && !Path.isAbsolute relative then some relative else none

/-- Whether the paths of the files below a root, from the root on, differ in lower case too. -/
def Store.CaseDistinct (s : Store) (root : String) : Prop :=
  ((s.paths.filterMap (relativeTo? root)).map Text.toLower).Nodup

instance (s : Store) (root : String) : Decidable (s.CaseDistinct root) :=
  inferInstanceAs (Decidable (List.Nodup _))

namespace Resolver

variable {s : Store} {r : Resolver} {l l' importer : Located} {base ending path : String}

/-- The resolver that minds case or does not. -/
def withCase (r : Resolver) (caseSensitive : Bool) : Resolver :=
  ⟨r.root, { r.settings with caseSensitive }⟩

/-- The identifiers of the modules in the files of a store. -/
def storedIds (s : Store) (r : Resolver) : Set ModuleId := {id | ∃ l, IsStored s r l ∧ l.id = id}

theorem trimmed_append (hbase : Path.IsClean base) (ending : List Char) :
    Text.trimmed (base.toList ++ ending) = base.toList ++ Text.trimmed ending := by
  obtain ⟨n, hn⟩ := Text.exists_slashes ending
  have hlast : (base.toList ++ Text.trimmed ending).getLast? ≠ some '/' := by
    obtain ⟨cs, c, hcs, hc⟩ := Path.exists_last_of_isClean hbase
    rw [List.getLast?_append]
    cases h : (Text.trimmed ending).getLast? with
    | none => simpa [hcs] using hc
    | some d =>
      have := Text.getLast?_trimmed ending
      rw [h] at this
      simpa using this
  conv => lhs; rw [Text.trimmed]
  rw [List.map_append, Path.map_slashed_of_notMem (Path.backslash_notMem_of_isClean hbase), hn,
    ← List.append_assoc, Text.rdropWhile_append_slashes hlast]

/-- The file of a stored module is that of its path without slashes at the end. -/
theorem IsStored.exists_relative (hcase : r.settings.caseSensitive = true)
    (h : IsStored s r l) : ∃ relative, l.id = .ofClean relative true ∧
      ∃ file ∈ s.paths, Store.relativeTo? r.root file =
        some (String.ofList (Text.trimmed relative.toList)) := by
  obtain ⟨base, ending, hbase, -, hl, hfile⟩ := h
  have hrelative : Text.trimmed (base ++ ending).toList =
      base.toList ++ Text.trimmed ending.toList := by
    rw [String.toList_append, trimmed_append hbase]
  have hpath : (Store.normalize (Path.join r.root (base ++ ending))).toList =
      (Path.withSlashes (Path.lead r.root)).toList ++ Text.trimmed (base ++ ending).toList := by
    rw [Path.normalize_join hbase, String.toList_ofList, hrelative, List.append_assoc,
      Path.withSlashes, String.toList_ofList]
    rfl
  have habsolute : Path.isAbsolute (String.ofList (Text.trimmed (base ++ ending).toList)) =
      false := by
    rw [hrelative, String.ofList_append, String.ofList_toList]
    exact Path.isAbsolute_of_isClean hbase _
  have hrelativeTo : Store.relativeTo? r.root
      (Store.normalize (Path.join r.root (base ++ ending))) =
        some (String.ofList (Text.trimmed (base ++ ending).toList)) := by
    unfold Store.relativeTo?
    dsimp only
    rw [hpath, List.drop_left, habsolute, List.isPrefixOf_iff_prefix.2 (List.prefix_append _ _)]
    rfl
  rw [hl] at hfile ⊢
  refine ⟨base ++ ending, ?_, _, mem_paths_of_isFile hfile, hrelativeTo⟩
  rw [locatedAt, hcase]

/-- Where files differ in more than case, so do the identifiers of stored modules. -/
theorem lowered_injOn (hdistinct : s.CaseDistinct r.root)
    (hcase : r.settings.caseSensitive = true) : Set.InjOn ModuleId.lowered (storedIds s r) := by
  rintro id ⟨l, hl, rfl⟩ id' ⟨l', hl', rfl⟩ hsame
  obtain ⟨relative, hid, file, hfile, hrelative⟩ := hl.exists_relative hcase
  obtain ⟨relative', hid', file', hfile', hrelative'⟩ := hl'.exists_relative hcase
  rw [hid, hid', ModuleId.lowered_ofClean, ModuleId.lowered_ofClean, ModuleId.ofClean,
    ModuleId.ofClean, if_neg Bool.false_ne_true, if_neg Bool.false_ne_true,
    ModuleId.mk.injEq] at hsame
  have hlower : Text.lowerAfter [] relative.toList = Text.lowerAfter [] relative'.toList :=
    String.ofList_injective ((String.append_right_inj _).1 hsame)
  have htrimmed : Text.trimmed relative.toList = Text.trimmed relative'.toList := by
    apply String.ofList_injective
    refine List.inj_on_of_nodup_map hdistinct (List.mem_filterMap.2 ⟨file, hfile, hrelative⟩)
      (List.mem_filterMap.2 ⟨file', hfile', hrelative'⟩) ?_
    rw [Text.toLower, Text.toLower, String.toList_ofList, String.toList_ofList,
      Text.lowerAfter_trimmed, Text.lowerAfter_trimmed, hlower]
  rw [hid, hid', String.toList_injective (Text.eq_of_lower_eq htrimmed hlower)]

/-! ## Resolution without case -/

theorem locatedAt_withoutCase (hcase : r.settings.caseSensitive = true) (clean : String) :
    (r.withCase false).locatedAt clean = (r.locatedAt clean).lowered := by
  rw [locatedAt, locatedAt, Located.lowered, hcase, ModuleId.lowered_ofClean]
  rfl

theorem probed_withoutCase (hcase : r.settings.caseSensitive = true) (s : Store)
    (path : String) :
    probed s (r.withCase false) path = (probed s r path).map Located.lowered := by
  unfold probed
  cases Path.cleanRelative? path with
  | none => rfl
  | some base =>
    have htried : ((r.withCase false).candidates base).map (r.withCase false).locatedAt =
        ((r.candidates base).map r.locatedAt).map Located.lowered := by
      rw [List.map_map]
      exact List.map_congr_left fun clean _ => locatedAt_withoutCase hcase clean
    dsimp only
    rw [htried, List.find?_map]
    have hfile : ((fun l : Located => s.isFile l.path) ∘ Located.lowered) =
        fun l => s.isFile l.path := rfl
    rw [hfile]
    cases ((r.candidates base).map r.locatedAt).find? fun l => s.isFile l.path with
    | some l => rfl
    | none =>
      rw [List.map_map]
      rfl

theorem locateFrom_withoutCase (hcase : r.settings.caseSensitive = true) (s : Store)
    (specifier : String) (importer : Located) :
    locateFrom (m := Id) s.toFiles (r.withCase false) specifier importer.lowered =
      ((locateFrom (m := Id) s.toFiles r specifier importer : Except ResolveError Located).map
        Located.lowered).mapError ResolveError.lowered := by
  rw [locateFrom, locateFrom, locateIn_toFiles, locateIn_toFiles]
  split
  · rw [probed_withoutCase hcase]
    show ((probed s r (joined importer.directory specifier)).map Located.lowered).mapError _ =
      (((probed s r (joined importer.directory specifier)).mapError _).map _).mapError _
    cases probed s r (joined importer.directory specifier) with
    | ok l => rfl
    | error e => exact congrArg Except.error (e.lowered_about specifier importer.id.text).symm
  · rfl

theorem locateEntry_withoutCase (hcase : r.settings.caseSensitive = true) (s : Store)
    (entry : String) :
    locateEntry (m := Id) s.toFiles (r.withCase false) entry =
      ((locateEntry (m := Id) s.toFiles r entry : Except ResolveError Located).map
        Located.lowered).mapError ResolveError.lowered := by
  unfold locateEntry
  dsimp only
  rw [show (r.withCase false).root = r.root from rfl]
  split
  · show Except.error _ = Except.error (ResolveError.escapesRoot entry (Text.toLower entryImporter))
    rw [toLower_entryImporter]
  · next relative hrelative =>
    rw [probe_toFiles, probe_toFiles, probed_withoutCase hcase]
    show ((probed s r relative).map Located.lowered).mapError _ =
      (((probed s r relative).mapError _).map _).mapError _
    cases probed s r relative with
    | ok l => rfl
    | error e =>
      show Except.error (e.about entry entryImporter) =
        Except.error (e.about entry entryImporter).lowered
      rw [e.lowered_about, toLower_entryImporter]

end Resolver

namespace Graph

open Resolver

variable {s : Store} {f : String → Except TransformError Script.ModuleBody} {r : Resolver}
  {l : Located} {queue targets : List Located} {g : Graph} {record : Record}

/-- A transformer that does not look at the identifiers of modules. -/
def ignoringId (f : String → Except TransformError Script.ModuleBody) : Transformer Id :=
  fun source _ => f source

/-! ## One turn without case -/

theorem locateAll_cons (files : Files Id) (r : Resolver) (l : Located) (specifier : String)
    (rest : List String) : locateAll files r l (specifier :: rest) =
      match r.locateFrom files specifier l with
      | .error e => Except.error ⟨some l.id, some specifier, .resolve e⟩
      | .ok target =>
        match locateAll files r l rest with
        | .error e => .error e
        | .ok targets => .ok ((specifier, target) :: targets) :=
  rfl

theorem locateAll_withoutCase (hcase : r.settings.caseSensitive = true) (s : Store)
    (l : Located) (specifiers : List String) :
    locateAll (m := Id) s.toFiles (r.withCase false) l.lowered specifiers =
      loweredBy (List.map fun t => (t.1, t.2.lowered))
        (locateAll (m := Id) s.toFiles r l specifiers) := by
  induction specifiers with
  | nil => rfl
  | cons specifier rest ih =>
    rw [locateAll_cons, locateAll_cons, locateFrom_withoutCase hcase s specifier l, ih]
    cases locateFrom (m := Id) s.toFiles r specifier l with
    | error e => rfl
    | ok target => cases locateAll (m := Id) s.toFiles r l rest <;> rfl

/-- A module that is loaded without case has the same code and the same specifiers, and leads to
the same files. -/
theorem load_withoutCase (hcase : r.settings.caseSensitive = true) (s : Store)
    (f : String → Except TransformError Script.ModuleBody) (l : Located) :
    load (m := Id) s.toFiles (ignoringId f) (r.withCase false) l.lowered =
      loweredBy (fun loaded => (loaded.1.lowered, loaded.2.map Located.lowered))
        (load (m := Id) s.toFiles (ignoringId f) r l) := by
  have hpath : l.lowered.path = l.path := rfl
  rw [load_eq, load_eq, hpath]
  cases s.toFiles.readText (m := Id) l.path with
  | error e => rfl
  | ok source =>
    dsimp only [ignoringId]
    cases f source with
    | error e => rfl
    | ok body =>
      dsimp only
      rw [locateAll_withoutCase hcase]
      cases locateAll (m := Id) s.toFiles r l body.specifiers.eraseDups with
      | error e => rfl
      | ok targets =>
        simp only [loweredBy, List.map_map, Record.lowered]
        rfl

/-! ## Looking up identifiers -/

section Lookup

variable {met : Set ModuleId} (hinj : Set.InjOn ModuleId.lowered met)
include hinj

theorem lowered_mem_map_iff {ids : List ModuleId} {id : ModuleId} (hids : ∀ i ∈ ids, i ∈ met)
    (hid : id ∈ met) : id.lowered ∈ ids.map ModuleId.lowered ↔ id ∈ ids := by
  constructor
  · intro h
    obtain ⟨i, hi, hsame⟩ := List.mem_map.1 h
    rwa [← hinj (hids i hi) hid hsame]
  · exact List.mem_map_of_mem

/-- Where lower case keeps the identifiers in question apart, a record takes the same place. -/
theorem insert_lowered (hg : ∀ id ∈ g.ids, id ∈ met) (hrecord : record.id ∈ met) :
    g.lowered.insert record.lowered = (g.insert record).lowered := by
  have hrecords : ∀ records : List Record, (∀ old ∈ records, old.id ∈ met) →
      insertRecord record.lowered (records.map Record.lowered) =
        (insertRecord record records).map Record.lowered := by
    intro records hold
    induction records with
    | nil => rfl
    | cons old rest ih =>
      have hsame : (old.lowered.id == record.lowered.id) = (old.id == record.id) := by
        rw [Bool.eq_iff_iff, beq_iff_eq, beq_iff_eq]
        exact ⟨hinj (hold old List.mem_cons_self) hrecord, congrArg ModuleId.lowered⟩
      rw [List.map_cons, insertRecord, insertRecord, hsame,
        ih fun r hr => hold r (List.mem_cons_of_mem old hr)]
      split <;> rfl
  rw [insert, insert, lowered, lowered,
    hrecords g.records fun old hold => hg old.id (List.mem_map_of_mem hold)]

/-- Where lower case keeps the identifiers in question apart, the same modules join a queue. -/
theorem enqueue_lowered (hg : ∀ id ∈ g.ids, id ∈ met) (hqueue : ∀ l ∈ queue, l.id ∈ met)
    (htargets : ∀ l ∈ targets, l.id ∈ met) :
    g.lowered.enqueue (queue.map Located.lowered) (targets.map Located.lowered) =
      (g.enqueue queue targets).map Located.lowered := by
  induction targets generalizing queue with
  | nil => rfl
  | cons l rest ih =>
    have hl := htargets l List.mem_cons_self
    have hrest := fun t ht => htargets t (List.mem_cons_of_mem l ht)
    have hids : g.lowered.ids ++ (queue.map Located.lowered).map (·.id) =
        (g.ids ++ queue.map (·.id)).map ModuleId.lowered := by
      simp [ids, lowered, Record.lowered, Located.lowered, Function.comp_def]
    have hmet : (g.lowered.contains l.lowered.id ||
        (queue.map Located.lowered).any (·.id == l.lowered.id)) =
          (g.contains l.id || queue.any (·.id == l.id)) := by
      rw [Bool.eq_iff_iff, isMet_iff, isMet_iff, hids]
      refine lowered_mem_map_iff hinj (fun i hi => ?_) hl
      rcases List.mem_append.1 hi with hi | hi
      · exact hg i hi
      · obtain ⟨t, ht, hti⟩ := List.mem_map.1 hi
        exact hti ▸ hqueue t ht
    rw [List.map_cons, enqueue, enqueue, hmet]
    split
    · exact ih hqueue hrest
    · rw [← List.map_singleton, ← List.map_append, ih (fun t ht => ?_) hrest]
      rcases List.mem_append.1 ht with ht | ht
      · exact hqueue t ht
      · rwa [List.mem_singleton.1 ht]

end Lookup

/-! ## The loop without case -/

theorem mem_ids_insert {id : ModuleId} (h : id ∈ (g.insert record).ids) :
    id = record.id ∨ id ∈ g.ids := by
  have hrecords : ∀ records : List Record, id ∈ (insertRecord record records).map (·.id) →
      id = record.id ∨ id ∈ records.map (·.id) := by
    intro records hmem
    induction records with
    | nil => simpa [insertRecord] using hmem
    | cons old rest ih =>
      rw [insertRecord] at hmem
      split at hmem
      · rw [List.map_cons, List.mem_cons] at hmem ⊢
        exact hmem.imp_right Or.inr
      · rw [List.map_cons, List.mem_cons] at hmem ⊢
        rcases hmem with hold | hmem
        · exact Or.inr (Or.inl hold)
        · exact (ih hmem).imp_right Or.inr
  exact hrecords g.records h

/-- The loop goes through the same modules under identifiers in lower case, as long as lower case
keeps apart what it meets. -/
theorem loadAll_withoutCase (hcase : r.settings.caseSensitive = true)
    (hinj : Set.InjOn ModuleId.lowered (storedIds s r))
    (f : String → Except TransformError Script.ModuleBody) (limit n : Nat)
    (hg : ∀ id ∈ g.ids, id ∈ storedIds s r) (hqueue : ∀ l ∈ queue, l.id ∈ storedIds s r) :
    loadAll (m := Id) s.toFiles (ignoringId f) (r.withCase false) limit n g.lowered
        (queue.map Located.lowered) =
      loweredBy lowered (loadAll (m := Id) s.toFiles (ignoringId f) r limit n g queue) := by
  induction n generalizing g queue with
  | zero => cases queue <;> rfl
  | succ n ih =>
    match queue with
    | [] => rfl
    | l :: queue =>
      have hl := hqueue l List.mem_cons_self
      have hload := load_withoutCase hcase s f l
      show (match load (m := Id) s.toFiles (ignoringId f) (r.withCase false) l.lowered with
        | .error e => Except.error e
        | .ok (record, targets) => loadAll (m := Id) s.toFiles (ignoringId f) (r.withCase false)
            limit n (g.lowered.insert record)
              ((g.lowered.insert record).enqueue (queue.map Located.lowered) targets)) =
        loweredBy lowered (match load (m := Id) s.toFiles (ignoringId f) r l with
        | .error e => Except.error e
        | .ok (record, targets) => loadAll (m := Id) s.toFiles (ignoringId f) r
            limit n (g.insert record) ((g.insert record).enqueue queue targets))
      rw [hload]
      cases hstep : load (m := Id) s.toFiles (ignoringId f) r l with
      | error e => rfl
      | ok loaded =>
        obtain ⟨record, targets⟩ := loaded
        obtain ⟨hyields, htargets⟩ := yields_of_load hstep
        have hrecord : record.id ∈ storedIds s r := hyields.id_eq ▸ hl
        have hmore : ∀ t ∈ targets, t.id ∈ storedIds s r := by
          intro t ht
          obtain ⟨specifier, hlocate⟩ := exists_locateFrom_of_mem_targetsOf (htargets ▸ ht)
          exact ⟨t, isStored_of_locateFrom hlocate, rfl⟩
        have hg' : ∀ id ∈ (g.insert record).ids, id ∈ storedIds s r := by
          intro id hid
          rcases mem_ids_insert hid with hnew | hold
          · exact hnew ▸ hrecord
          · exact hg id hold
        have hqueue' := fun t ht => hqueue t (List.mem_cons_of_mem l ht)
        show loadAll (m := Id) s.toFiles (ignoringId f) (r.withCase false) limit n
          (g.lowered.insert record.lowered) ((g.lowered.insert record.lowered).enqueue
            (queue.map Located.lowered) (targets.map Located.lowered)) = _
        rw [insert_lowered hinj hg hrecord, enqueue_lowered hinj hg' hqueue' hmore]
        refine ih hg' fun t ht => ?_
        rcases find?_of_mem_enqueue ht with hold | ⟨hfind, -⟩
        · exact hqueue' t hold
        · exact hmore t (List.mem_of_find?_eq_some hfind)

/-- Where no two files below the root differ in case only and the transformer does not look at
identifiers, a build without case is the build that minds case with all identifiers in lower case:
the same graph, or the same error at the same module. -/
theorem buildEntry_withoutCase (s : Store) (f : String → Except TransformError Script.ModuleBody)
    (r : Resolver) (entry : String) (hdistinct : s.CaseDistinct r.root) :
    buildEntry (m := Id) s.toFiles (ignoringId f) (r.withCase false) entry =
      loweredBy lowered
        (buildEntry (m := Id) s.toFiles (ignoringId f) (r.withCase true) entry) := by
  have hcase : (r.withCase true).settings.caseSensitive = true := rfl
  have hlocate := locateEntry_withoutCase hcase s entry
  show (match locateEntry (m := Id) s.toFiles ((r.withCase true).withCase false) entry with
    | .error e => Except.error _
    | .ok l => buildFrom (m := Id) s.toFiles (ignoringId f) ((r.withCase true).withCase false) l) =
    loweredBy lowered (match locateEntry (m := Id) s.toFiles (r.withCase true) entry with
    | .error e => Except.error _
    | .ok l => buildFrom (m := Id) s.toFiles (ignoringId f) (r.withCase true) l)
  rw [hlocate]
  cases hentry : locateEntry (m := Id) s.toFiles (r.withCase true) entry with
  | error e => rfl
  | ok l =>
    have hstored : l.id ∈ storedIds s (r.withCase true) := ⟨l, isStored_of_locateEntry hentry, rfl⟩
    have hinj := lowered_injOn (r := r.withCase true) hdistinct hcase
    have hnone : ∀ id ∈ (empty l.id).ids, id ∈ storedIds s (r.withCase true) :=
      fun id hid => absurd hid List.not_mem_nil
    have hone : ∀ l' ∈ [l], l'.id ∈ storedIds s (r.withCase true) :=
      fun l' hl' => List.mem_singleton.1 hl' ▸ hstored
    have hloop (limit : Nat) := loadAll_withoutCase hcase hinj f limit limit hnone hone
    exact hloop _

/-- A project with upper case letters in its paths. The entry imports a file from a directory with
an index, which imports one beside it. -/
def upperStore : Store := .ofFiles
  [("/p/Main.js", Text.encode "import './Lib';\nimport './Lib/Util';\n"),
   ("/p/Lib/index.js", Text.encode "import './Util.js';\n"),
   ("/p/Lib/Util.js", Text.encode "run();\n")]

theorem buildEntry_withoutCase_upperStore :
    upperStore.CaseDistinct "/p" ∧
    buildEntry (m := Id) upperStore.toFiles (ignoringId transformScript)
        (withCase ⟨"/p", {}⟩ false) "Main.js" =
      loweredBy lowered (buildEntry (m := Id) upperStore.toFiles (ignoringId transformScript)
        (withCase ⟨"/p", {}⟩ true) "Main.js") ∧
    (buildEntry (m := Id) upperStore.toFiles (ignoringId transformScript)
      (withCase ⟨"/p", {}⟩ true) "Main.js" : Except BuildError Graph).map ids =
      .ok [⟨"./Main.js"⟩, ⟨"./Lib/index.js"⟩, ⟨"./Lib/Util.js"⟩] := by
  have hdistinct : upperStore.CaseDistinct "/p" := by decide +kernel
  have hbuilt := buildEntry_withoutCase upperStore transformScript ⟨"/p", {}⟩ "Main.js" hdistinct
  exact ⟨hdistinct, hbuilt, by decide +kernel⟩

end Graph

end ModuleBundler
