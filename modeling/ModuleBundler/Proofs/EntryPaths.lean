import ModuleBundler.Proofs.Probing

/-
  Spellings of an entry. An absolute path inside the root is read without the components of the root
  and without those of the rest that lead nowhere (`inside?_join`). Where the rest then begins with a
  backslash that was not at its front before, cleaning takes it for a path from the root of the
  system, and otherwise for the same path (`cleanRelative?_ofSegments_names`). So a path in the root
  and the same path behind the root end alike exactly if no such backslash comes to the front, and
  what the entry finds is found by an import from the root too (`locateEntry_join_endAlike_iff`).
-/

namespace ModuleBundler

namespace Path

variable {p q root : String} {part : String} {rest : List String}

/-! ## Names of components -/

/-- The components of a path apart from its root and from a dot at its front. -/
def names (p : String) : List String := (segments p).filter (!isIdle ·)

theorem components_eq (p : String) : components p =
    if isAbsolute p then "/" :: names p
    else if (segments p).head? == some "." then "." :: names p else names p := by
  have hnames : ((segments p).filter fun s => s != "" && s != ".") = names p := by
    refine List.filter_congr fun s _ => ?_
    rw [isIdle, Bool.not_or]
    rfl
  rw [components, hnames]

theorem names_append_slash (p q : String) : names (p ++ "/" ++ q) = names p ++ names q := by
  rw [names, segments_append_slash, List.filter_append, names, names]

theorem isAbsolute_append (h : isAbsolute p = true) (q : String) : isAbsolute (p ++ q) = true := by
  rw [isAbsolute, beq_iff_eq] at h ⊢
  rw [String.toList_append, List.head?_append, h]
  rfl

/-- What stands before a path in a root ends with a slash, and has the names of the root. -/
theorem exists_lead_eq (hroot : isAbsolute root = true) :
    ∃ front, lead root = front ++ "/" ∧ names front = names root ∧
      isAbsolute (lead root) = true := by
  have hne : root.isEmpty = false := by
    rw [← Bool.not_eq_true, String.isEmpty_iff]
    rintro rfl
    exact absurd hroot (by decide)
  rw [lead, hne, if_neg Bool.false_ne_true]
  split
  · next hlast =>
    obtain ⟨cs, hcs⟩ := List.getLast?_eq_some_iff.1 (beq_iff_eq.1 hlast)
    have hsplit : root = String.ofList cs ++ "/" := String.toList_injective (by simp [hcs])
    have hnames := names_append_slash (String.ofList cs) ""
    rw [String.append_empty, ← hsplit] at hnames
    refine ⟨String.ofList cs, hsplit, ?_, hroot⟩
    rw [hnames]
    exact (List.append_nil _).symm
  · exact ⟨root, rfl, rfl, isAbsolute_append hroot "/"⟩

/-- A path in a root has the components of the root in front of its own names. -/
theorem components_join (hroot : isAbsolute root = true) (hp : isAbsolute p = false) :
    components (join root p) = components root ++ names p := by
  obtain ⟨front, hlead, hfront, habsolute⟩ := exists_lead_eq hroot
  rw [components_eq, components_eq, join_eq_lead hp, isAbsolute_append habsolute, hroot, if_pos rfl,
    if_pos rfl, hlead, names_append_slash, hfront, List.cons_append]

/-- What is left of a path in a root are its names. -/
theorem inside?_join (hroot : isAbsolute root = true) (hp : isAbsolute p = false) :
    inside? root (join root p) = some (ofSegments (names p)) := by
  rw [inside?, components_join hroot hp, List.drop_left,
    if_pos (List.isPrefixOf_iff_prefix.2 (List.prefix_append _ _))]
  cases hnames : names p with
  | nil => rfl
  | cons first rest =>
    have hfirst : ¬ (first == "/") = true := by
      intro heq
      have hmem : first ∈ segments p := List.mem_of_mem_filter (hnames ▸ List.mem_cons_self)
      rw [beq_iff_eq.1 heq] at hmem
      exact slash_notMem_of_mem_segments hmem (by decide)
    dsimp only
    rw [if_neg hfirst]

/-! ## Cleaning the names -/

/-- Parts of what leads nowhere lead nowhere. -/
theorem filter_parts_of_isIdle (h : isIdle part = true) : (parts part).filter (!isIdle ·) = [] := by
  rw [isIdle, Bool.or_eq_true, beq_iff_eq, beq_iff_eq] at h
  rcases h with rfl | rfl <;> decide +kernel

/-- The parts of a path that count are those of its names. -/
theorem filter_parts (p : String) :
    (parts p).filter (!isIdle ·) = (names p).flatMap fun s => (parts s).filter (!isIdle ·) := by
  conv => lhs; rw [← ofSegments_segments p, parts_ofSegments (segments_ne_nil p)]
  rw [names]
  induction segments p with
  | nil => rfl
  | cons s rest ih =>
    rw [List.flatMap_cons, List.filter_append, ih]
    cases hidle : isIdle s with
    | true =>
      rw [filter_parts_of_isIdle hidle, List.nil_append,
        List.filter_cons_of_neg (by rw [hidle]; exact Bool.false_ne_true)]
    | false => rw [List.filter_cons_of_pos (by rw [hidle]; rfl), List.flatMap_cons]

theorem names_ofSegments_names (p : String) : names (ofSegments (names p)) = names p := by
  by_cases hnil : names p = []
  · rw [hnil]
    rfl
  · have hslash : ∀ name ∈ names p, '/' ∉ name.toList := fun name hname =>
      slash_notMem_of_mem_segments (List.mem_of_mem_filter hname)
    rw [names, segments_ofSegments hnil hslash]
    exact List.filter_eq_self.2 fun name hname => (List.mem_filter.1 hname).2

/-- The names of a path lead where the path leads, and climb if it does. -/
theorem keeps_names (p : String) :
    normalForm (parts (ofSegments (names p))) = normalForm (parts p) ∧
      (Climbs (parts (ofSegments (names p))) ↔ Climbs (parts p)) := by
  have hsame : (parts (ofSegments (names p))).filter (!isIdle ·) =
      (parts p).filter (!isIdle ·) := by
    rw [filter_parts, filter_parts p, names_ofSegments_names]
  obtain ⟨hform, hclimbs⟩ := keeps_of_shortens (shortens_filter [] (parts (ofSegments (names p))))
  obtain ⟨hform', hclimbs'⟩ := keeps_of_shortens (shortens_filter [] (parts p))
  rw [List.nil_append, hsame] at hform hclimbs
  exact ⟨hform.trans hform'.symm, hclimbs.trans hclimbs'.symm⟩

/-- Whether the first name of a path begins with a backslash. -/
def HidesSeparator (p : String) : Prop := (names p).head?.any startsSeparated = true

instance (p : String) : Decidable (HidesSeparator p) := inferInstanceAs (Decidable (_ = true))

/-- A path starts like its first segment, unless that is empty. -/
theorem startsSeparated_ofSegments (hpart : part ≠ "") (rest : List String) :
    startsSeparated (ofSegments (part :: rest)) = startsSeparated part := by
  have hhead : ∃ more, ofSegments (part :: rest) = part ++ more := by
    cases rest with
    | nil => exact ⟨"", by rw [ofSegments_singleton, String.append_empty]⟩
    | cons next rest => exact ⟨_, by rw [ofSegments_cons_cons, String.append_assoc]⟩
  obtain ⟨more, hmore⟩ := hhead
  obtain ⟨c, cs, hcs⟩ : ∃ c cs, part.toList = c :: cs :=
    List.exists_cons_of_ne_nil (mt String.toList_eq_nil_iff.1 hpart)
  rw [hmore, startsSeparated, startsSeparated, String.toList_append, hcs]
  rfl

theorem startsSeparated_ofSegments_names :
    startsSeparated (ofSegments (names p)) = true ↔ HidesSeparator p := by
  rw [HidesSeparator]
  cases hnames : names p with
  | nil => exact Iff.rfl
  | cons first rest =>
    have hmem : first ∈ names p := hnames ▸ List.mem_cons_self
    have hfirst : first ≠ "" := by
      rintro rfl
      exact absurd (List.mem_filter.1 hmem).2 (by decide)
    rw [startsSeparated_ofSegments hfirst]
    rfl

/-- A backslash at the front of a path is at the front of its first name. -/
theorem hidesSeparator_of_startsSeparated (hp : isAbsolute p = false)
    (h : startsSeparated p = true) : HidesSeparator p := by
  obtain ⟨first, rest, hsegments⟩ := List.exists_cons_of_ne_nil (segments_ne_nil p)
  have hfirst : first.toList = p.toList.takeWhile (· != '/') := by
    have hhead : (segments p).head? = some first := by rw [hsegments, List.head?_cons]
    rw [segments, List.head?_map, Text.head?_splitOn, Option.map_some, Option.some.injEq] at hhead
    rw [← hhead, String.toList_ofList]
  rw [startsSeparated] at h
  rw [isAbsolute] at hp
  cases hcs : p.toList with
  | nil =>
    rw [hcs] at h
    cases h
  | cons c cs =>
    rw [hcs, List.head?_cons, beq_eq_false_iff_ne, ne_eq, Option.some.injEq] at hp
    rw [hcs, List.takeWhile_cons_of_pos (by simpa using hp)] at hfirst
    rw [hcs] at h
    have hseparated : startsSeparated first = true := by
      rw [startsSeparated, hfirst]
      exact h
    have hidle : isIdle first = false := by
      rw [← Bool.not_eq_true, isIdle, Bool.or_eq_true, beq_iff_eq, beq_iff_eq]
      rintro (rfl | rfl) <;> exact absurd hseparated (by decide)
    rw [HidesSeparator, names, hsegments, List.filter_cons_of_pos (by rw [hidle]; rfl)]
    exact hseparated

theorem cleanRelative?_ofSegments_names (hp : isAbsolute p = false) :
    cleanRelative? (ofSegments (names p)) =
      if HidesSeparator p then none else cleanRelative? p := by
  split
  · next h => exact cleanRelative?_eq_none_iff.2 (Or.inl (startsSeparated_ofSegments_names.2 h))
  · next h =>
    obtain ⟨hform, hclimbs⟩ := keeps_names p
    refine cleanRelative?_congr ?_ hform hclimbs
    rw [Bool.eq_false_iff.2 (mt startsSeparated_ofSegments_names.1 h),
      Bool.eq_false_iff.2 (mt (hidesSeparator_of_startsSeparated hp) h)]

/-- A dot in front of a path that does not start with a separator changes nothing. -/
theorem cleanRelative?_dot (h : startsSeparated p = false) :
    cleanRelative? ("./" ++ p) = cleanRelative? p := by
  have hparts : parts ("./" ++ p) = "." :: parts p := by
    show parts ("." ++ "/" ++ p) = _
    rw [parts_append_slash]
    rfl
  have hdot : Shortens (parts ("./" ++ p)) (parts p) := by
    rw [hparts]
    exact .idle [] (parts p) (by decide)
  refine cleanRelative?_congr ?_ hdot.keeps.1 hdot.keeps.2
  rw [h, startsSeparated, String.toList_append]
  rfl

end Path

namespace Resolver

variable {s : Store} {r : Resolver} {p q : String} {l : Located}

/-! ## Searches that end alike -/

/-- Whether two searches end alike: with the same module, or with the same kind of error after the
same files were tried. -/
def EndAlike : Except ResolveError Located → Except ResolveError Located → Prop
  | .ok l, .ok l' => l = l'
  | .error (.unsupported _ _), .error (.unsupported _ _) => True
  | .error (.escapesRoot _ _), .error (.escapesRoot _ _) => True
  | .error (.notFound _ _ tried), .error (.notFound _ _ tried') => tried = tried'
  | _, _ => False

instance (result result' : Except ResolveError Located) : Decidable (EndAlike result result') := by
  unfold EndAlike
  split <;> infer_instance

/-- Paths that were probed end alike exactly if the probing came to the same. -/
theorem endAlike_about_iff {result result' : Except ProbeError Located}
    {specifier specifier' importer importer' : String} :
    EndAlike (result.mapError (·.about specifier importer))
      (result'.mapError (·.about specifier' importer')) ↔ result = result' := by
  match result, result' with
  | .ok l, .ok l' => exact Except.ok.injEq l l' ▸ Iff.rfl
  | .ok l, .error .escapes => exact iff_of_false id nofun
  | .ok l, .error (.missing tried) => exact iff_of_false id nofun
  | .error .escapes, .ok l => exact iff_of_false id nofun
  | .error (.missing tried), .ok l => exact iff_of_false id nofun
  | .error .escapes, .error .escapes => exact iff_of_true trivial rfl
  | .error .escapes, .error (.missing tried) => exact iff_of_false id nofun
  | .error (.missing tried), .error .escapes => exact iff_of_false id nofun
  | .error (.missing tried), .error (.missing tried') =>
    rw [Except.error.injEq, ProbeError.missing.injEq]
    rfl

theorem probed_congr (h : Path.cleanRelative? p = Path.cleanRelative? q) :
    probed s r p = probed s r q := by
  rw [probed, probed, h]

/-! ## Entries -/

theorem locateEntry_of_relative (hp : Path.isAbsolute p = false) :
    locateEntry (m := Id) s.toFiles r p =
      (probed s r p).mapError (·.about p entryImporter) := by
  rw [locateEntry, hp]
  show (do return (← probe s.toFiles r p).mapError _ : Id (Except ResolveError Located)) = _
  rw [probe_toFiles]
  rfl

/-- An entry behind the root is read as its names in the root. -/
theorem locateEntry_join (hroot : Path.isAbsolute r.root = true) (hp : Path.isAbsolute p = false) :
    locateEntry (m := Id) s.toFiles r (Path.join r.root p) =
      (probed s r (Path.ofSegments (Path.names p))).mapError
        (·.about (Path.join r.root p) entryImporter) := by
  have habsolute : Path.isAbsolute (Path.join r.root p) = true := by
    obtain ⟨front, -, -, hlead⟩ := Path.exists_lead_eq hroot
    rw [Path.join_eq_lead hp, Path.isAbsolute_append hlead]
  rw [locateEntry, habsolute, if_pos rfl, Path.inside?_join hroot hp]
  show (do return (← probe s.toFiles r _).mapError _ : Id (Except ResolveError Located)) = _
  rw [probe_toFiles]
  rfl

/-- An import of the entry's path from the root finds what the entry finds. -/
theorem locateIn_of_locateEntry (hp : Path.isAbsolute p = false)
    (h : locateEntry (m := Id) s.toFiles r p = .ok l) (importer : ModuleId) :
    locateIn (m := Id) s.toFiles r ("./" ++ p) "" importer = .ok l := by
  rw [locateEntry_of_relative hp] at h
  have hprobed := ok_of_mapError_ok h
  obtain ⟨base, hbase, -⟩ := probed_eq_ok_iff.1 hprobed
  have hstays : Path.StaysInside p := (Path.cleanRelative?_eq_some_iff.1 hbase).1
  have hspecifier : isRelative ("./" ++ p) = true := by
    rw [isRelative, String.toList_append]
    rfl
  rw [locateIn_toFiles, if_pos hspecifier]
  show (probed s r ("./" ++ p)).mapError _ = _
  rw [probed_congr (Path.cleanRelative?_dot hstays.relative), hprobed]
  rfl

/-- With an absolute root, a relative entry and the same entry behind the root end alike, unless the
path stays inside and a backslash comes to its front when what leads nowhere is taken away. What a
relative entry finds is found by its import from every module in the root too. -/
theorem locateEntry_join_endAlike_iff (hroot : Path.isAbsolute r.root = true)
    (hp : Path.isAbsolute p = false) :
    (EndAlike (locateEntry (m := Id) s.toFiles r (Path.join r.root p))
        (locateEntry (m := Id) s.toFiles r p) ↔
      ¬ (Path.StaysInside p ∧ Path.HidesSeparator p)) ∧
    ∀ l, locateEntry (m := Id) s.toFiles r p = .ok l →
      (∀ importer : ModuleId, importer.directory = "" →
        locate (m := Id) s.toFiles r ("./" ++ p) importer = .ok l) ∧
      ∀ importer : Located, importer.directory = "" →
        locateFrom (m := Id) s.toFiles r ("./" ++ p) importer = .ok l := by
  constructor
  · rw [locateEntry_join hroot hp, locateEntry_of_relative hp, endAlike_about_iff]
    have hclean := Path.cleanRelative?_ofSegments_names hp
    by_cases hhides : Path.HidesSeparator p
    · rw [if_pos hhides] at hclean
      rw [probed_eq_escapes_iff.2 hclean, eq_comm, probed_eq_escapes_iff,
        Path.cleanRelative?_eq_none, and_iff_left hhides]
    · rw [if_neg hhides] at hclean
      exact iff_of_true (probed_congr hclean) fun h => hhides h.2
  · intro l h
    refine ⟨fun importer himporter => ?_, fun importer himporter => ?_⟩
    · rw [locate, himporter]
      exact locateIn_of_locateEntry hp h importer
    · rw [locateFrom, himporter]
      exact locateIn_of_locateEntry hp h importer.id

/-- A project with a directory that is found by its index file. -/
def entryStore : Store := .ofFiles [("/p/src/index.js", .empty)]

/-- An entry with a dot in front, a backslash in between and a slash at its end, behind a root that
ends with a slash. -/
theorem locateEntry_join_endAlike_entryStore :
    let r : Resolver := ⟨"/p/", {}⟩
    let p := ".//lib\\..\\src/"
    let l : Located := ⟨⟨"./src/index.js"⟩, "/p/src/index.js", "src/index.js"⟩
    Path.isAbsolute r.root = true ∧ Path.isAbsolute p = false ∧
    locateEntry (m := Id) entryStore.toFiles r p = .ok l ∧
    EndAlike (locateEntry (m := Id) entryStore.toFiles r (Path.join r.root p))
      (locateEntry (m := Id) entryStore.toFiles r p) ∧
    ModuleId.directory ⟨"./main.js"⟩ = "" ∧
    locate (m := Id) entryStore.toFiles r ("./" ++ p) ⟨"./main.js"⟩ = .ok l := by
  intro r p l
  have hroot : Path.isAbsolute r.root = true := by decide
  have hp : Path.isAbsolute p = false := by decide
  have hentry : locateEntry (m := Id) entryStore.toFiles r p = .ok l := by
    show @Eq (Except ResolveError Located) _ _
    decide +kernel
  have himporter : ModuleId.directory ⟨"./main.js"⟩ = "" := by decide +kernel
  have hhides : ¬ Path.HidesSeparator p := by decide +kernel
  obtain ⟨halike, himport⟩ := locateEntry_join_endAlike_iff (s := entryStore) hroot hp
  exact ⟨hroot, hp, hentry, halike.2 fun h => hhides h.2, himporter,
    (himport l hentry).1 _ himporter⟩

/-- Behind the root a backslash comes to the front of the path, and the entry is said to escape. -/
theorem hidden_backslash :
    let s : Store := .ofFiles [("/p/a.js", .empty)]
    let r : Resolver := ⟨"/p", {}⟩
    Path.isAbsolute r.root = true ∧ Path.isAbsolute "./\\a.js" = false ∧
    locateEntry (m := Id) s.toFiles r "./\\a.js" = .ok ⟨⟨"./a.js"⟩, "/p/a.js", "a.js"⟩ ∧
    locateEntry (m := Id) s.toFiles r (Path.join r.root "./\\a.js") =
      .error (.escapesRoot "/p/./\\a.js" "<entry>") ∧
    ¬ EndAlike (locateEntry (m := Id) s.toFiles r (Path.join r.root "./\\a.js"))
      (locateEntry (m := Id) s.toFiles r "./\\a.js") := by
  refine ⟨by decide, by decide, ?_, ?_, by decide +kernel⟩
  · show @Eq (Except ResolveError Located) _ _
    decide +kernel
  · show @Eq (Except ResolveError Located) _ _
    decide +kernel

end Resolver

end ModuleBundler
