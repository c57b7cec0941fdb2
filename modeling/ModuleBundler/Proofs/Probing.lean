import ModuleBundler.Proofs.NormalForm

/-
  How the search for a specifier ends. Whether a specifier is relative can be read off from its first
  segment (`isRelative_iff`), and what the probing of a path comes to is settled by its clean form
  and by the files among the candidates (`probed_eq_ok_iff`, `probed_eq_missing_iff`). In a clean
  directory no relative specifier leads to a path that starts with a separator. So a specifier that
  is relative is refused exactly if it climbs out of the root or leads to the root itself, and all
  others find the first candidate that is a file, or none (`locateIn_classified`).
-/

namespace ModuleBundler

/-! ## Relative specifiers -/

theorem Text.head?_splitOn (separator : Char) (cs : List Char) :
    (splitOn separator cs).head? = some (cs.takeWhile (· != separator)) := by
  induction cs with
  | nil => rfl
  | cons c cs ih =>
    rw [splitOn]
    split
    · next hc => simp [beq_iff_eq.1 hc]
    · next hc =>
      obtain ⟨piece, pieces, hcs⟩ := List.exists_cons_of_ne_nil (splitOn_ne_nil separator cs)
      rw [hcs, List.head?_cons, Option.some.injEq] at ih
      rw [hcs, ih]
      simp [bne, hc]

/-- What stands before the first separator ends at a separator or at the end of the text. -/
theorem Text.eq_of_takeWhile {separator : Char} {cs front : List Char}
    (h : cs.takeWhile (· != separator) = front) :
    cs = front ∨ ∃ rest, cs = front ++ separator :: rest := by
  have hcs := List.takeWhile_append_dropWhile (p := (· != separator)) (l := cs)
  have hhead := List.head?_dropWhile_not (· != separator) cs
  rw [h] at hcs
  cases hrest : cs.dropWhile (· != separator) with
  | nil =>
    rw [hrest, List.append_nil] at hcs
    exact Or.inl hcs.symm
  | cons c rest =>
    rw [hrest] at hcs hhead
    have hc : c = separator := by simpa using hhead
    exact Or.inr ⟨rest, by rw [← hcs, hc]⟩

/-- Whether a specifier starts with a step to the same directory or to the one above. -/
def BeginsWithStep (specifier : String) : Prop :=
  (Path.segments specifier).head? = some "." ∨ (Path.segments specifier).head? = some ".."

instance (specifier : String) : Decidable (BeginsWithStep specifier) :=
  inferInstanceAs (Decidable (_ ∨ _))

theorem isRelative_iff {specifier : String} :
    isRelative specifier = true ↔ BeginsWithStep specifier := by
  have hhead : ∀ step : String, (Path.segments specifier).head? = some step ↔
      specifier.toList.takeWhile (· != '/') = step.toList := by
    intro step
    rw [Path.segments, List.head?_map, Text.head?_splitOn, Option.map_some, Option.some.injEq,
      ← String.toList_inj, String.toList_ofList]
  rw [BeginsWithStep, hhead, hhead, isRelative]
  generalize specifier.toList = cs
  constructor
  · intro h
    split at h
    · exact Or.inl rfl
    · exact Or.inr rfl
    · exact Or.inl rfl
    · exact Or.inr rfl
    · cases h
  · rintro (h | h)
    · rcases Text.eq_of_takeWhile h with rfl | ⟨rest, rfl⟩ <;> rfl
    · rcases Text.eq_of_takeWhile h with rfl | ⟨rest, rfl⟩ <;> rfl

namespace Resolver

variable {s : Store} {r : Resolver} {l : Located} {path base specifier directory : String}
  {tried : List String} {importer : ModuleId}

/-! ## Probing a path -/

/-- Whether one of some candidates is a file and none before it is. -/
def FirstFile (s : Store) (r : Resolver) (candidates : List String) (c : String) : Prop :=
  ∃ before after, candidates = before ++ c :: after ∧
    (∀ b ∈ before, s.isFile (Path.join r.root b) = false) ∧
    s.isFile (Path.join r.root c) = true

theorem find?_map_locatedAt_eq_some {candidates : List String} :
    ((candidates.map r.locatedAt).find? fun l => s.isFile l.path) = some l ↔
      ∃ c, FirstFile s r candidates c ∧ l = r.locatedAt c := by
  rw [List.find?_map, Option.map_eq_some_iff]
  refine exists_congr fun c => ?_
  rw [List.find?_eq_some_iff_append, eq_comm (b := l)]
  refine and_congr_left fun _ => ?_
  constructor
  · rintro ⟨hfile, before, after, rfl, hbefore⟩
    exact ⟨before, after, rfl, fun b hb => (Bool.not_eq_true' _).mp (hbefore b hb), hfile⟩
  · rintro ⟨before, after, rfl, hbefore, hfile⟩
    exact ⟨hfile, before, after, rfl, fun b hb => (Bool.not_eq_true' _).mpr (hbefore b hb)⟩

theorem find?_map_locatedAt_eq_none {candidates : List String} :
    ((candidates.map r.locatedAt).find? fun l => s.isFile l.path) = none ↔
      ∀ c ∈ candidates, s.isFile (Path.join r.root c) = false := by
  rw [List.find?_eq_none, List.forall_mem_map]
  exact forall₂_congr fun c _ => iff_of_eq (Bool.not_eq_true _)

theorem probed_eq_escapes_iff :
    probed s r path = .error .escapes ↔ Path.cleanRelative? path = none := by
  rw [probed]
  cases Path.cleanRelative? path with
  | none => exact iff_of_true rfl rfl
  | some base =>
    dsimp only
    split <;> simp

theorem probed_eq_ok_iff : probed s r path = .ok l ↔ ∃ base, Path.cleanRelative? path = some base ∧
    ∃ c, FirstFile s r (r.candidates base) c ∧ l = r.locatedAt c := by
  rw [probed]
  cases Path.cleanRelative? path with
  | none => simp
  | some base =>
    simp only [Option.some.injEq, exists_eq_left', ← find?_map_locatedAt_eq_some]
    split
    · next l' hfind => rw [hfind, Except.ok.injEq, Option.some.injEq]
    · next hfind =>
      rw [hfind]
      simp

theorem probed_eq_missing_iff : probed s r path = .error (.missing tried) ↔
    ∃ base, Path.cleanRelative? path = some base ∧
      (∀ c ∈ r.candidates base, s.isFile (Path.join r.root c) = false) ∧
      tried = (r.candidates base).map (Path.join r.root) := by
  rw [probed]
  cases Path.cleanRelative? path with
  | none => simp
  | some base =>
    simp only [Option.some.injEq, exists_eq_left', ← find?_map_locatedAt_eq_none]
    split
    · next l' hfind =>
      rw [hfind]
      simp
    · next hfind =>
      rw [Except.error.injEq, ProbeError.missing.injEq, and_iff_right hfind, List.map_map,
        eq_comm (b := tried)]
      rfl

/-! ## Specifiers in a directory -/

/-- Behind a clean directory, or with none, a relative specifier does not start with a separator. -/
theorem startsSeparated_joined (hdirectory : directory = "" ∨ Path.IsClean directory)
    (hspecifier : isRelative specifier = true) :
    Path.startsSeparated (joined directory specifier) = false := by
  rw [joined]
  rcases hdirectory with rfl | hclean
  · show Path.startsSeparated specifier = false
    rw [Path.startsSeparated]
    rw [isRelative] at hspecifier
    split at hspecifier
    · next h => rw [h]; rfl
    · next h => rw [h]; rfl
    · next h => rw [h]; rfl
    · next h => rw [h]; rfl
    · cases hspecifier
  · have hne : ¬ directory.isEmpty = true := by
      intro hempty
      rw [String.isEmpty_iff.1 hempty] at hclean
      exact (Path.staysInside_of_isClean hclean).ne_nil rfl
    rw [if_neg hne, String.append_assoc]
    exact Path.startsSeparated_append (Path.staysInside_of_isClean hclean) _

/-- Whether a path leads out of the directory it starts from on its way, or to that directory
itself. -/
def Strays (path : String) : Prop :=
  Path.Climbs (Path.parts path) ∨ Path.normalForm (Path.parts path) = []

theorem staysInside_joined_iff (hdirectory : directory = "" ∨ Path.IsClean directory)
    (hspecifier : isRelative specifier = true) :
    Path.StaysInside (joined directory specifier) ↔ ¬ Strays (joined directory specifier) := by
  have hrelative := startsSeparated_joined hdirectory hspecifier
  rw [Strays, not_or]
  exact ⟨fun h => ⟨h.not_climbs, h.ne_nil⟩, fun h => ⟨hrelative, h.1, h.2⟩⟩

/-- What is said of a path that was probed tells what the probing came to. -/
theorem mapError_about_eq (result : Except ProbeError Located) (specifier importer : String) :
    (result.mapError (·.about specifier importer) ≠ .error (.unsupported specifier importer)) ∧
    (result.mapError (·.about specifier importer) = .error (.escapesRoot specifier importer) ↔
      result = .error .escapes) ∧
    (∀ l, result.mapError (·.about specifier importer) = .ok l ↔ result = .ok l) ∧
    ∀ tried, result.mapError (·.about specifier importer) =
      .error (.notFound specifier importer tried) ↔ result = .error (.missing tried) := by
  cases result with
  | ok l => simp [Except.mapError]
  | error e => cases e <;> simp [Except.mapError, ProbeError.about]

/-- The path from the root to what a specifier in a directory means, before any ending. -/
def baseOf (directory specifier : String) : String :=
  Path.ofSegments (Path.normalForm (Path.parts (joined directory specifier)))

/-- How the search for a specifier in a directory of a store ends: which inputs give each result. -/
structure Classified (s : Store) (r : Resolver) (specifier directory : String)
    (importer : ModuleId) (result : Except ResolveError Located) : Prop where
  unsupported :
    result = .error (.unsupported specifier importer.text) ↔ ¬ BeginsWithStep specifier
  escapes : result = .error (.escapesRoot specifier importer.text) ↔
    BeginsWithStep specifier ∧ Strays (joined directory specifier)
  found : ∀ l, result = .ok l ↔
    BeginsWithStep specifier ∧ ¬ Strays (joined directory specifier) ∧
      ∃ c, FirstFile s r (r.candidates (baseOf directory specifier)) c ∧ l = r.locatedAt c
  missing : ∀ tried, result = .error (.notFound specifier importer.text tried) ↔
    BeginsWithStep specifier ∧ ¬ Strays (joined directory specifier) ∧
      (∀ c ∈ r.candidates (baseOf directory specifier),
        s.isFile (Path.join r.root c) = false) ∧
      tried = (r.candidates (baseOf directory specifier)).map (Path.join r.root)

/-- A specifier in a clean directory is refused exactly if it does not begin with a step. One that
does is said to escape exactly if it climbs out of the root or leads to the root itself. Otherwise
the first candidate that is a file is found, or all candidates were tried. -/
theorem locateIn_classified (hdirectory : directory = "" ∨ Path.IsClean directory) :
    Classified s r specifier directory importer
      (locateIn (m := Id) s.toFiles r specifier directory importer) := by
  rw [locateIn_toFiles]
  by_cases hspecifier : isRelative specifier = true
  · have hstep : BeginsWithStep specifier := isRelative_iff.1 hspecifier
    have hinside := staysInside_joined_iff hdirectory hspecifier
    have hclean : ∀ holds : String → Prop,
        (∃ base, Path.cleanRelative? (joined directory specifier) = some base ∧ holds base) ↔
          ¬ Strays (joined directory specifier) ∧ holds (baseOf directory specifier) := by
      intro holds
      simp only [Path.cleanRelative?_eq_some_iff, hinside, and_assoc, exists_and_left,
        exists_eq_left]
      rfl
    obtain ⟨hunsupported, hescapes, hok, hmissing⟩ :=
      mapError_about_eq (probed s r (joined directory specifier)) specifier importer.text
    rw [if_pos hspecifier]
    exact {
      unsupported := iff_of_false hunsupported (not_not.2 hstep)
      escapes := by
        rw [and_iff_right hstep]
        refine hescapes.trans ?_
        rw [probed_eq_escapes_iff, Path.cleanRelative?_eq_none, hinside, not_not]
      found := fun l => by
        rw [and_iff_right hstep]
        refine (hok l).trans ?_
        rw [probed_eq_ok_iff, hclean]
      missing := fun tried => by
        rw [and_iff_right hstep]
        refine (hmissing tried).trans ?_
        rw [probed_eq_missing_iff, hclean] }
  · have hstep : ¬ BeginsWithStep specifier := mt isRelative_iff.2 hspecifier
    rw [if_neg hspecifier]
    exact {
      unsupported := iff_of_true rfl hstep
      escapes := iff_of_false nofun fun h => hstep h.1
      found := fun l => iff_of_false nofun fun h => hstep h.1
      missing := fun tried => iff_of_false nofun fun h => hstep h.1 }

/-- A project in which the root and the directories have index files. -/
def indexedStore : Store := .ofFiles
  [("/p/index.js", .empty), ("/p/src/index.js", .empty), ("/p/src/lib/a.js", .empty),
   ("/p/src/widgets/index.mjs", .empty)]

/-- From another directory, with a backslash, the index of a directory is found as the last
candidate. -/
theorem locateIn_classified_indexedStore :
    Path.IsClean "src/lib" ∧
    Classified indexedStore ⟨"/p", {}⟩ "./..\\widgets/" "src/lib" ⟨"./src/lib/a.js"⟩
      (.ok ⟨⟨"./src/widgets/index.mjs"⟩, "/p/src/widgets/index.mjs", "src/widgets/index.mjs"⟩) := by
  have hclean : Path.IsClean "src/lib" :=
    Path.isClean_of_cleanRelative? (p := "src/lib") (by decide +kernel)
  have hresult : locateIn (m := Id) indexedStore.toFiles ⟨"/p", {}⟩ "./..\\widgets/" "src/lib"
      ⟨"./src/lib/a.js"⟩ =
        .ok ⟨⟨"./src/widgets/index.mjs"⟩, "/p/src/widgets/index.mjs", "src/widgets/index.mjs"⟩ := by
    show @Eq (Except ResolveError Located) _ _
    decide +kernel
  exact ⟨hclean, hresult ▸ locateIn_classified (Or.inr hclean)⟩

/-- The index file of the root is not found: the specifier that leads to the root is said to escape
from it, although it does not climb. In any other directory the same specifier finds the index. -/
theorem root_index_escapes :
    locate (m := Id) indexedStore.toFiles ⟨"/p", {}⟩ "." ⟨"./main.js"⟩ =
      .error (.escapesRoot "." "./main.js") ∧
    locate (m := Id) indexedStore.toFiles ⟨"/p", {}⟩ ".." ⟨"./src/main.js"⟩ =
      .error (.escapesRoot ".." "./src/main.js") ∧
    ¬ Path.Climbs (Path.parts (joined "" ".")) ∧ ¬ Path.Climbs (Path.parts (joined "src" "..")) ∧
    indexedStore.isFile "/p/index.js" = true ∧
    locate (m := Id) indexedStore.toFiles ⟨"/p", {}⟩ "." ⟨"./src/main.js"⟩ =
      .ok ⟨⟨"./src/index.js"⟩, "/p/src/index.js", "src/index.js"⟩ := by
  refine ⟨?_, ?_, by decide +kernel, by decide +kernel, by decide +kernel, ?_⟩
  · show @Eq (Except ResolveError Located) _ _
    decide +kernel
  · show @Eq (Except ResolveError Located) _ _
    decide +kernel
  · show @Eq (Except ResolveError Located) _ _
    decide +kernel

end Resolver

end ModuleBundler
