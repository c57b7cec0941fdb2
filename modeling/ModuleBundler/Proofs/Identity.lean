import ModuleBundler.Proofs.Locate

/-
  One file, one identifier. Where case counts and no extension holds a slash, two ways to find a
  module lead to one stored file exactly if they give one identifier (`id_eq_iff_same_file`). An
  identifier is the path that was tried, and such a path is kept by the stored spelling as it is
  (`normalize_join_of_keepsSpelling`), so either of the two can be read off from the other.
-/

namespace ModuleBundler.Path

variable {p q root : String}

/-- Whether the stored spelling changes nothing about a text at the end of a path. -/
def KeepsSpelling (ending : String) : Prop :=
  '\\' ∉ ending.toList ∧ ending.toList.getLast? ≠ some '/'

theorem keepsSpelling_empty : KeepsSpelling "" := by
  unfold KeepsSpelling
  decide

theorem keepsSpelling_of_notMem {ending : String} (hslash : '/' ∉ ending.toList)
    (hback : '\\' ∉ ending.toList) : KeepsSpelling ending :=
  ⟨hback, fun hlast => hslash (List.mem_of_getLast? hlast)⟩

theorem keepsSpelling_append {text ending : String} (htext : KeepsSpelling text)
    (hending : KeepsSpelling ending) : KeepsSpelling (text ++ ending) := by
  unfold KeepsSpelling at *
  rw [String.toList_append, List.mem_append, List.getLast?_append]
  refine ⟨fun h => h.elim htext.1 hending.1, ?_⟩
  cases hlast : ending.toList.getLast? with
  | none => simpa using htext.2
  | some c => simpa [hlast] using hending.2

/-- The stored spelling keeps a clean path with such an ending behind the root. -/
theorem normalize_join_of_keepsSpelling {ending : String} (hp : IsClean p)
    (hending : KeepsSpelling ending) : Store.normalize (join root (p ++ ending)) =
      String.ofList ((lead root).toList.map slashed) ++ (p ++ ending) := by
  rw [normalize_join hp, map_slashed_of_notMem hending.1,
    reverse_dropWhile_of_getLast? hending.2, String.ofList_append, String.ofList_append,
    String.ofList_toList, String.ofList_toList, String.append_assoc]

end ModuleBundler.Path

namespace ModuleBundler.Resolver

variable {s : Store} {r : Resolver} {l l' : Located} {base ending : String}

/-- The ways to find a module in a store: as the entry, from a module with an identifier, and from
a module that was found. -/
inductive Finds (s : Store) (r : Resolver) (l : Located) : Prop where
  | entry (path : String) (h : locateEntry (m := Id) s.toFiles r path = .ok l)
  | locate (specifier : String) (importer : ModuleId)
      (h : locate (m := Id) s.toFiles r specifier importer = .ok l)
  | locateFrom (specifier : String) (importer : Located)
      (h : locateFrom (m := Id) s.toFiles r specifier importer = .ok l)

theorem Finds.isStored (h : Finds s r l) : IsStored s r l := by
  cases h with
  | entry path h => exact isStored_of_locateEntry h
  | locate specifier importer h => exact isStored_of_locateIn h
  | locateFrom specifier importer h => exact isStored_of_locateFrom h

theorem keepsSpelling_of_mem_endings
    (hextensions : ∀ e ∈ r.settings.extensions, '/' ∉ e.toList ∧ '\\' ∉ e.toList)
    (h : ending ∈ r.endings) : Path.KeepsSpelling ending := by
  rw [endings, List.mem_cons, List.mem_append, List.mem_map] at h
  rcases h with rfl | h | ⟨extension, h, rfl⟩
  · exact Path.keepsSpelling_empty
  · exact Path.keepsSpelling_of_notMem (hextensions ending h).1 (hextensions ending h).2
  · have hindex : Path.KeepsSpelling "/index" := by unfold Path.KeepsSpelling; decide
    refine Path.keepsSpelling_append hindex ?_
    exact Path.keepsSpelling_of_notMem (hextensions extension h).1 (hextensions extension h).2

/-- What is found has the path of its file, from the root on, as its identifier. -/
theorem IsStored.normalize_path (h : IsStored s r l) (hcase : r.settings.caseSensitive = true)
    (hextensions : ∀ e ∈ r.settings.extensions, '/' ∉ e.toList ∧ '\\' ∉ e.toList) :
    ∃ relative, l.id = ⟨"./" ++ relative⟩ ∧ Store.normalize l.path =
      String.ofList ((Path.lead r.root).toList.map Path.slashed) ++ relative := by
  obtain ⟨base, ending, hbase, hending, rfl, -⟩ := h
  refine ⟨base ++ ending, ?_, ?_⟩
  · rw [locatedAt, hcase]
    rfl
  · have hkeeps := keepsSpelling_of_mem_endings hextensions hending
    exact Path.normalize_join_of_keepsSpelling hbase hkeeps

/-- Where case counts and extensions hold no slashes, two modules that were found have one
identifier exactly if their paths lead to one file of the store. -/
theorem id_eq_iff_same_file (hcase : r.settings.caseSensitive = true)
    (hextensions : ∀ e ∈ r.settings.extensions, '/' ∉ e.toList ∧ '\\' ∉ e.toList)
    (h : Finds s r l) (h' : Finds s r l') :
    l.id = l'.id ↔
      ∃ file ∈ s.paths, Store.normalize l.path = file ∧ Store.normalize l'.path = file := by
  obtain ⟨relative, hid, hpath⟩ := h.isStored.normalize_path hcase hextensions
  obtain ⟨relative', hid', hpath'⟩ := h'.isStored.normalize_path hcase hextensions
  constructor
  · intro hsame
    rw [hid, hid', ModuleId.mk.injEq] at hsame
    have hrelative : relative = relative' := (String.append_right_inj _).1 hsame
    refine ⟨_, mem_paths_of_isFile h.isStored.isFile, rfl, ?_⟩
    rw [hpath, hpath', hrelative]
  · rintro ⟨file, -, hfile, hfile'⟩
    have hsame := hfile.trans hfile'.symm
    rw [hpath, hpath'] at hsame
    rw [hid, hid', (String.append_right_inj _).1 hsame]

/-- A store whose only module is reached as an entry without its extension, and as an import from
another directory with backslashes and a slash at the end. -/
def utilStore : Store := .ofFiles [("\\p\\src\\util.js", .empty)]

/-- The module of this store. -/
def utilModule : Located := ⟨⟨"./src/util.js"⟩, "/p/src/util.js", "src/util.js"⟩

theorem id_eq_iff_same_file_utilStore :
    Finds utilStore ⟨"/p", {}⟩ utilModule ∧
    locateEntry (m := Id) utilStore.toFiles ⟨"/p", {}⟩ "src//util" = .ok utilModule ∧
    locate (m := Id) utilStore.toFiles ⟨"/p", {}⟩ "./..\\src/util.js/" ⟨"./lib/main.js"⟩ =
      .ok utilModule ∧
    (utilModule.id = utilModule.id ↔ ∃ file ∈ utilStore.paths,
      Store.normalize utilModule.path = file ∧ Store.normalize utilModule.path = file) := by
  have hentry : locateEntry (m := Id) utilStore.toFiles ⟨"/p", {}⟩ "src//util" =
      .ok utilModule := by
    show @Eq (Except ResolveError Located) _ _
    decide +kernel
  have hlocate : locate (m := Id) utilStore.toFiles ⟨"/p", {}⟩ "./..\\src/util.js/"
      ⟨"./lib/main.js"⟩ = .ok utilModule := by
    show @Eq (Except ResolveError Located) _ _
    decide +kernel
  exact ⟨.entry _ hentry, hentry, hlocate,
    id_eq_iff_same_file rfl (by decide) (.entry _ hentry) (.locate _ _ hlocate)⟩

end ModuleBundler.Resolver
