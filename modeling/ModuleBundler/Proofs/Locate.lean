import Mathlib.Data.List.Nodup
import Mathlib.Data.List.ProdSigma
import Mathlib.Tactic.Choose
import ModuleBundler.Graph.Build
import ModuleBundler.Proofs.Path

/-
  Finding modules in a store. A store that is only looked at answers without effects, in whatever
  monad it is asked (`probe_toFiles`, `locateFrom_toFiles`). What is found is a stored file under
  a clean path with one of the endings of resolution (`isStored_of_locateFrom`), and so there are
  at most as many identifiers as pairs of files and endings (`length_le_of_isStored`).
-/

namespace ModuleBundler

/-- Behind its dot an identifier is the clean path, in lower case where case does not count. -/
theorem ModuleId.relativePath_ofClean (clean : String) (caseSensitive : Bool) :
    (ofClean clean caseSensitive).relativePath =
      if caseSensitive then clean else Text.toLower clean := by
  rw [relativePath, ofClean, String.toList_append]
  exact String.ofList_toList

namespace Resolver

variable {m : Type → Type} [Monad m] [LawfulMonad m]
variable {s : Store} {r : Resolver} {l importer : Located} {base path c specifier entry : String}

/-! ## Answers without effects -/

theorem firstFile?_toFiles (s : Store) (ls : List Located) :
    firstFile? (m := m) s.toFiles ls = pure (ls.find? fun l => s.isFile l.path) := by
  induction ls with
  | nil => rfl
  | cons l rest ih =>
    show (pure (s.isFile l.path) >>= fun found =>
      if found then pure (some l) else firstFile? s.toFiles rest) = _
    rw [pure_bind, ih, List.find?_cons]
    cases s.isFile l.path <;> rfl

/-- The module that a path stands for in a store. -/
def probed (s : Store) (r : Resolver) (path : String) : Except ProbeError Located :=
  match Path.cleanRelative? path with
  | none => .error .escapes
  | some base =>
    match ((r.candidates base).map r.locatedAt).find? fun l => s.isFile l.path with
    | some l => .ok l
    | none => .error (.missing (((r.candidates base).map r.locatedAt).map (·.path)))

theorem probe_toFiles (s : Store) (r : Resolver) (path : String) :
    probe (m := m) s.toFiles r path = pure (probed s r path) := by
  unfold probe probed
  cases Path.cleanRelative? path with
  | none => rfl
  | some base =>
    dsimp only
    rw [firstFile?_toFiles, pure_bind]
    cases ((r.candidates base).map r.locatedAt).find? fun l => s.isFile l.path <;> rfl

theorem locateIn_toFiles (s : Store) (r : Resolver) (specifier directory : String)
    (importer : ModuleId) : locateIn (m := m) s.toFiles r specifier directory importer = pure
      (if isRelative specifier then
        (probed s r (joined directory specifier)).mapError (·.about specifier importer.text)
      else .error (.unsupported specifier importer.text)) := by
  rw [locateIn]
  split
  · rw [probe_toFiles, pure_bind]
  · rfl

theorem locateFrom_toFiles (s : Store) (r : Resolver) (specifier : String) (importer : Located) :
    locateFrom (m := m) s.toFiles r specifier importer =
      pure (locateFrom (m := Id) s.toFiles r specifier importer) := by
  rw [locateFrom, locateFrom, locateIn_toFiles, locateIn_toFiles]
  rfl

/-! ## What is found -/

/-- What resolution may add to a clean path. -/
def endings (r : Resolver) : List String :=
  "" :: (r.settings.extensions ++ r.settings.extensions.map ("/index" ++ ·))

/-- A module under a clean path with an ending, in a file of a store. -/
def IsStored (s : Store) (r : Resolver) (l : Located) : Prop :=
  ∃ base ending, Path.IsClean base ∧ ending ∈ r.endings ∧ l = r.locatedAt (base ++ ending) ∧
    s.isFile l.path = true

theorem IsStored.isFile (h : IsStored s r l) : s.isFile l.path = true := by
  obtain ⟨base, ending, -, -, -, hfile⟩ := h
  exact hfile

theorem exists_ending_of_mem_candidates (h : c ∈ r.candidates base) :
    ∃ ending ∈ r.endings, c = base ++ ending := by
  rw [candidates, List.mem_cons, List.mem_append, List.mem_map] at h
  rcases h with rfl | ⟨extension, hextension, rfl⟩ | h
  · exact ⟨"", List.mem_cons_self, String.append_empty.symm⟩
  · exact ⟨extension, List.mem_cons_of_mem _ (List.mem_append_left _ hextension), rfl⟩
  · split at h
    · obtain ⟨extension, hextension, rfl⟩ := List.mem_map.1 h
      refine ⟨"/index" ++ extension, List.mem_cons_of_mem _ (List.mem_append_right _ ?_), ?_⟩
      · exact List.mem_map_of_mem hextension
      · rw [String.append_assoc]
    · exact absurd h List.not_mem_nil

theorem isStored_of_probed (h : probed s r path = .ok l) : IsStored s r l := by
  rw [probed] at h
  split at h
  · cases h
  · next base hbase =>
    split at h
    · next l' hfind =>
      obtain rfl := Except.ok.inj h
      obtain ⟨c, hc, rfl⟩ := List.mem_map.1 (List.mem_of_find?_eq_some hfind)
      obtain ⟨ending, hending, rfl⟩ := exists_ending_of_mem_candidates hc
      have hfile := List.find?_some (p := fun l : Located => s.isFile l.path) hfind
      exact ⟨base, ending, Path.isClean_of_cleanRelative? hbase, hending, rfl, hfile⟩
    · cases h

theorem ok_of_mapError_ok {ε ε' α : Type} {f : ε → ε'} {x : Except ε α} {a : α}
    (h : x.mapError f = .ok a) : x = .ok a := by
  cases x with
  | error e => cases h
  | ok b => exact congrArg Except.ok (Except.ok.inj h)

theorem isStored_of_locateIn {directory : String} {importer : ModuleId}
    (h : locateIn (m := Id) s.toFiles r specifier directory importer = .ok l) :
    IsStored s r l := by
  rw [locateIn_toFiles] at h
  split at h
  · exact isStored_of_probed (ok_of_mapError_ok h)
  · cases h

theorem isStored_of_locateFrom
    (h : locateFrom (m := Id) s.toFiles r specifier importer = .ok l) : IsStored s r l :=
  isStored_of_locateIn h

theorem isStored_of_locateEntry (h : locateEntry (m := Id) s.toFiles r entry = .ok l) :
    IsStored s r l := by
  rw [locateEntry] at h
  split at h
  · cases h
  · rw [probe_toFiles, pure_bind] at h
    exact isStored_of_probed (ok_of_mapError_ok h)

/-! ## How much can be found -/

theorem mem_paths_of_isFile (h : s.isFile path = true) : Store.normalize path ∈ s.paths := by
  rw [Store.isFile, Store.holds, Option.isSome_iff_exists] at h
  generalize Store.normalize path = file at h ⊢
  obtain ⟨content, hcontent⟩ := h
  obtain ⟨before, after, hfiles, -⟩ := List.lookup_eq_some_iff.1 hcontent
  rw [Store.paths, hfiles, List.map_append, List.map_cons]
  exact List.mem_append_right _ List.mem_cons_self

/-- Whether the file under a stored spelling is that of an identifier, by way of an ending. -/
def Answers (r : Resolver) (file ending : String) (id : ModuleId) : Prop :=
  ∃ base, Path.IsClean base ∧ id = .ofClean (base ++ ending) r.settings.caseSensitive ∧
    file = Store.normalize (Path.join r.root (base ++ ending))

theorem Answers.unique {file ending : String} {id id' : ModuleId} (h : Answers r file ending id)
    (h' : Answers r file ending id') : id = id' := by
  obtain ⟨base, hbase, rfl, hfile⟩ := h
  obtain ⟨base', hbase', rfl, hfile'⟩ := h'
  rw [Path.normalize_join_inj hbase hbase' (hfile.symm.trans hfile')]

theorem IsStored.exists_answers (h : IsStored s r l) :
    ∃ file ∈ s.paths, ∃ ending ∈ r.endings, Answers r file ending l.id := by
  obtain ⟨base, ending, hbase, hending, rfl, hfile⟩ := h
  have hpath : Store.normalize (Path.join r.root (base ++ ending)) ∈ s.paths :=
    mem_paths_of_isFile hfile
  exact ⟨_, hpath, ending, hending, base, hbase, rfl, rfl⟩

/-- One file answers to one module for each ending. -/
theorem length_le_of_isStored {ids : List ModuleId} (hnodup : ids.Nodup)
    (h : ∀ id ∈ ids, ∃ l, IsStored s r l ∧ l.id = id) :
    ids.length ≤ s.files.length * (1 + 2 * r.settings.extensions.length) := by
  have hkey : ∀ id, ∃ key : String × String, id ∈ ids →
      key ∈ s.paths ×ˢ r.endings ∧ Answers r key.1 key.2 id := by
    intro id
    by_cases hid : id ∈ ids
    · obtain ⟨l, hl, rfl⟩ := h id hid
      obtain ⟨file, hfile, ending, hending, hanswers⟩ := hl.exists_answers
      exact ⟨(file, ending), fun _ => ⟨List.mem_product.2 ⟨hfile, hending⟩, hanswers⟩⟩
    · exact ⟨("", ""), fun hmem => absurd hmem hid⟩
  choose key hkey using hkey
  have hmap : (ids.map key).Nodup := by
    refine List.Nodup.map_on (fun id hid id' hid' hsame => ?_) hnodup
    exact (hkey id hid).2.unique (hsame ▸ (hkey id' hid').2)
  have hsubset : ids.map key ⊆ s.paths ×ˢ r.endings := by
    intro k hk
    obtain ⟨id, hid, rfl⟩ := List.mem_map.1 hk
    exact (hkey id hid).1
  have hlength := hmap.length_le_of_subset hsubset
  rw [List.length_map, List.length_product, Store.paths, List.length_map, endings,
    List.length_cons, List.length_append, List.length_map] at hlength
  refine Nat.le_trans hlength (Nat.mul_le_mul_left _ ?_)
  omega

end Resolver

end ModuleBundler
