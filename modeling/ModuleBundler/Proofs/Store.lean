import Mathlib.Data.List.TakeWhile
import ModuleBundler.Proofs.Path

/-
  What a store holds. A file that is put is found under its spelling, and all others stay what they
  were (`lookup_put`). A directory is one that was made or one that a file lies below
  (`holdsDirectory_iff`), although only the first file that is not in front of the directory's own
  prefix is looked at: in the order of the paths nothing else comes between texts with one prefix.
  The directories above a path are those that stand in front of its slashes
  (`mem_enclosing_of_isAbove`).
-/

namespace ModuleBundler

/-! ## Tables in order -/

theorem lookup_cons_eq_ite {β : Type} (k k' : String) (v : β) (table : List (String × β)) :
    List.lookup k ((k', v) :: table) = if k = k' then some v else table.lookup k := by
  rw [List.lookup_cons]
  by_cases hk : k = k'
  · simp [hk]
  · rw [beq_false_of_ne hk, if_neg hk]

theorem lookup_insertSorted {β : Type} (key : String) (value : β) (table : List (String × β))
    (k : String) : (insertSorted key value table).lookup k =
      if k = key then some value else table.lookup k := by
  induction table with
  | nil => simp [insertSorted, lookup_cons_eq_ite]
  | cons entry rest ih =>
    obtain ⟨k', v⟩ := entry
    unfold insertSorted
    split
    · simp only [lookup_cons_eq_ite]
    · split
      · next heq =>
        obtain rfl := beq_iff_eq.1 heq
        simp only [lookup_cons_eq_ite]
        split <;> rfl
      · next hne =>
        simp only [lookup_cons_eq_ite, ih]
        split
        · next hk => rw [if_neg (fun heq => hne (beq_iff_eq.2 (heq.symm.trans hk)))]
        · rfl

/-- Between a text and one that it begins lie only texts that it begins. -/
theorem prefix_of_between {p f rest : List Char} (hlow : ¬ f < p) (hhigh : ¬ p ++ rest < f) :
    p <+: f := by
  induction p generalizing f with
  | nil => exact List.nil_prefix
  | cons c p ih =>
    cases f with
    | nil => exact absurd (List.nil_lt_cons c p) hlow
    | cons d f =>
      rw [List.cons_append] at hhigh
      rw [List.cons_lt_cons_iff, not_or, not_and] at hlow hhigh
      have heq : c = d := by
        refine Char.le_antisymm ?_ ?_
        · exact Char.not_lt.1 hlow.1
        · exact Char.not_lt.1 hhigh.1
      subst heq
      exact List.cons_prefix_cons.2 ⟨rfl, ih (hlow.2 rfl) (hhigh.2 rfl)⟩

/-- Behind the last occurrence of a character there is none. -/
theorem Text.notMem_of_splitLast? {separator : Char} {cs before after : List Char}
    (h : Text.splitLast? separator cs = some (before, after)) : separator ∉ after := by
  unfold Text.splitLast? at h
  split at h
  · cases h
  · cases h
    intro hmem
    have := List.mem_takeWhile_imp (List.mem_reverse.1 hmem)
    simp at this

namespace Store

variable {s : Store} {path p q file : String} {content : ByteArray}

/-! ## Files -/

theorem holds_iff : s.holds p = true ↔ p ∈ s.paths := by
  rw [holds, List.lookup_isSome_iff, paths, List.mem_map]
  constructor
  · rintro ⟨entry, hentry, hkey⟩
    exact ⟨entry, hentry, (beq_iff_eq.1 hkey).symm⟩
  · rintro ⟨entry, hentry, rfl⟩
    exact ⟨entry, hentry, beq_self_eq_true _⟩

theorem isFile_iff : s.isFile path = true ↔ normalize path ∈ s.paths := holds_iff

@[simp] theorem lookup_put (s : Store) (p : String) (content : ByteArray) (q : String) :
    (s.put p content).files.lookup q = if q = p then some content else s.files.lookup q :=
  lookup_insertSorted p content s.files q

@[simp] theorem mem_paths_put : q ∈ (s.put p content).paths ↔ q = p ∨ q ∈ s.paths :=
  mem_keys_insertSorted

/-! ## Directories -/

/-- The first file that is not in front of a text comes before all others that are not. -/
theorem not_lt_of_find? {bound first : String}
    (h : s.paths.find? (fun file => decide (¬ file < bound)) = some first) (hfile : file ∈ s.paths)
    (hbound : ¬ file < bound) : ¬ file < first := by
  obtain ⟨-, before, after, hpaths, hbefore⟩ := List.find?_eq_some_iff_append.1 h
  have hascending : s.paths.Pairwise (· < ·) := s.ascending
  rw [hpaths] at hfile hascending
  rcases List.mem_append.1 hfile with hin | hin
  · have hskipped := hbefore file hin
    rw [decide_eq_true hbound] at hskipped
    cases hskipped
  · rcases List.mem_cons.1 hin with rfl | hin
    · exact String.lt_irrefl _
    · exact String.lt_asymm
        ((List.pairwise_cons.1 (List.pairwise_append.1 hascending).2.1).1 file hin)

/-- What is looked at for a directory that was not made. -/
theorem holdsDirectory_iff_find? : s.holdsDirectory p = true ↔ p ∈ s.directories ∨
    ∃ first, s.paths.find? (fun file => decide (¬ file < below p)) = some first ∧
      (below p).toList <+: first.toList := by
  rw [holdsDirectory, Bool.or_eq_true, List.contains_iff_mem, paths, List.find?_map]
  refine or_congr Iff.rfl ?_
  have hsame : (fun file => decide (¬ file < below p)) ∘ (fun file : String × ByteArray => file.1) =
      fun file => decide (¬ file.1 < below p) := rfl
  rw [hsame]
  cases s.files.find? fun file => decide (¬ file.1 < below p) with
  | none => simp
  | some entry => simp [List.isPrefixOf_iff_prefix]

/-- Every file with a directory's prefix counts, not only the first that is not in front of it. -/
theorem holdsDirectory_iff : s.holdsDirectory p = true ↔
    p ∈ s.directories ∨ ∃ file ∈ s.paths, (below p).toList <+: file.toList := by
  rw [holdsDirectory_iff_find?]
  refine or_congr Iff.rfl ?_
  constructor
  · rintro ⟨first, hfind, hbegins⟩
    exact ⟨first, List.mem_of_find?_eq_some hfind, hbegins⟩
  · rintro ⟨file, hfile, rest, hrest⟩
    have hbound : ¬ file < below p := by
      rw [String.lt_iff, ← hrest]
      exact List.not_lt.2 List.le_append_left
    cases hfind : s.paths.find? fun file => decide (¬ file < below p) with
    | none => exact absurd (decide_eq_true hbound) (List.find?_eq_none.1 hfind file hfile)
    | some first =>
      have hlow : ¬ first < below p := by simpa using List.find?_some hfind
      have hhigh := not_lt_of_find? hfind hfile hbound
      rw [String.lt_iff] at hlow hhigh
      rw [← hrest] at hhigh
      exact ⟨first, rfl, prefix_of_between hlow hhigh⟩

/-! ## Stored spellings -/

/-- Whether a text is a stored spelling: slashes only, and none at the end but for the root. -/
structure IsSpelling (p : String) : Prop where
  slashes : '\\' ∉ p.toList
  closed : p.toList.getLast? = some '/' → p = "/"

theorem isSpelling_normalize (path : String) : IsSpelling (normalize path) := by
  have hchars := Path.backslash_notMem_withSlashes path
  unfold normalize
  dsimp only
  generalize (Path.withSlashes path).toList = chars at hchars ⊢
  split
  · split <;> exact ⟨by decide, by decide⟩
  · next hkept =>
    constructor
    · rw [String.toList_ofList]
      intro h
      rw [List.mem_reverse] at h
      have := List.mem_reverse.1 ((List.dropWhile_suffix _).mem h)
      exact hchars this
    · rw [String.toList_ofList, List.getLast?_reverse]
      intro h
      have := List.head?_dropWhile_not (· == '/') chars.reverse
      rw [h] at this
      simp at this

/-- What the paths below a stored spelling begin with. -/
theorem toList_below (h : IsSpelling p) :
    (below p).toList = if p = "/" then ['/'] else p.toList ++ ['/'] := by
  unfold below
  by_cases hlast : p.toList.getLast? = some '/'
  · rw [h.closed hlast]
    decide
  · have hne : p ≠ "/" := by
      rintro rfl
      exact hlast (by decide)
    simp [hlast, hne]

/-- Whether a path lies above another one, at one of its slashes. -/
def IsAbove (p q : String) : Prop := (below p).toList <+: q.toList ∧ p ≠ q

theorem mem_enclosing_self (p : String) : p ∈ enclosing p := by
  unfold enclosing
  split
  · exact List.mem_singleton_self p
  · exact List.mem_cons_self

/-- The root and a path without a slash have nothing above them. -/
theorem parent?_eq_none (h : parent? q = none) : q = "/" ∨ '/' ∉ q.toList := by
  unfold parent? at h
  split at h
  · next hsplit =>
    unfold Text.splitLast? at hsplit
    split at hsplit
    · next hdrop =>
      refine Or.inr fun hmem => ?_
      have := List.dropWhile_eq_nil_iff.1 hdrop '/' (List.mem_reverse.2 hmem)
      simp at this
    · cases hsplit
  · next after hsplit =>
    have hq := Text.eq_of_splitLast? hsplit
    split at h
    · next hempty =>
      rw [List.isEmpty_iff.1 hempty] at hq
      exact Or.inl (String.toList_injective hq)
    · cases h
  · cases h

/-- What is above a path is in front of its last slash, or the root. -/
theorem parent?_eq_some (h : parent? q = some p) : ∃ before after,
    q.toList = before ++ '/' :: after ∧ '/' ∉ after ∧
      p.toList = if before = [] then ['/'] else before := by
  unfold parent? at h
  split at h
  · cases h
  · next after hsplit =>
    split at h
    · cases h
    · cases h
      refine ⟨[], after, Text.eq_of_splitLast? hsplit, Text.notMem_of_splitLast? hsplit, ?_⟩
      rw [if_pos rfl]
      rfl
  · next before after hne hsplit =>
    cases h
    refine ⟨before, after, Text.eq_of_splitLast? hsplit, Text.notMem_of_splitLast? hsplit, ?_⟩
    rw [if_neg hne, String.toList_ofList]

/-- A path with a slash after it is in front of the last slash, or what the last slash follows. -/
theorem prefix_before_last {before after front : List Char} (hafter : '/' ∉ after)
    (h : front ++ ['/'] <+: before ++ '/' :: after) :
    front = before ∨ front ++ ['/'] <+: before := by
  obtain ⟨rest, hrest⟩ := h
  rw [List.append_assoc, List.singleton_append] at hrest
  rcases List.append_eq_append_iff.1 hrest with ⟨more, rfl, hmore⟩ | ⟨more, rfl, hmore⟩
  · cases more with
    | nil => exact Or.inl (List.append_nil front).symm
    | cons c more =>
      obtain ⟨rfl, -⟩ := List.cons_eq_cons.1 hmore
      exact Or.inr ⟨more, by simp⟩
  · cases more with
    | nil => exact Or.inl (List.append_nil before)
    | cons c more =>
      obtain ⟨-, hmore⟩ := List.cons_eq_cons.1 hmore
      exact absurd (hmore ▸ by simp) hafter

/-- The paths above one, save the empty one, are among those that enclose it. -/
theorem mem_enclosing_of_isAbove (h : IsAbove p q) (hp : IsSpelling p) (hne : p ≠ "") :
    p ∈ enclosing q := by
  have hchars : p.toList ≠ [] := fun heq => hne (String.toList_eq_nil_iff.1 heq)
  obtain ⟨hbegins, hdiffers⟩ := h
  rw [toList_below hp] at hbegins
  fun_induction enclosing q with
  | case1 q hparent =>
    split at hbegins
    · next hroot =>
      rcases parent?_eq_none hparent with rfl | hslash
      · exact absurd hroot hdiffers
      · exact absurd (hbegins.mem (by simp)) hslash
    · rcases parent?_eq_none hparent with rfl | hslash
      · obtain ⟨c, cs, hcs⟩ := List.exists_cons_of_ne_nil hchars
        have := hbegins.length_le
        simp [hcs] at this
      · exact absurd (hbegins.mem (by simp)) hslash
  | case2 q parent hparent ih =>
    obtain ⟨before, after, hq, hafter, hbefore⟩ := parent?_eq_some hparent
    by_cases hhere : p = parent
    · exact List.mem_cons_of_mem q (hhere ▸ mem_enclosing_self p)
    · refine List.mem_cons_of_mem q (ih ?_ hhere)
      rw [hq] at hbegins
      cases before with
      | nil =>
        have hroot : parent = "/" := String.toList_injective hbefore
        rw [if_neg (hroot ▸ hhere)] at hbegins
        rcases prefix_before_last hafter hbegins with heq | hin
        · exact absurd heq hchars
        · simp at hin
      | cons c before =>
        rw [if_neg (List.cons_ne_nil c before)] at hbefore
        rw [hbefore]
        split
        · next hroot =>
          rw [if_pos hroot] at hbegins
          exact List.cons_prefix_cons.2
            ⟨(List.cons_prefix_cons.1 hbegins).1, List.nil_prefix⟩
        · next hroot =>
          rw [if_neg hroot] at hbegins
          refine (prefix_before_last hafter hbegins).resolve_left fun heq => ?_
          exact hhere (String.toList_injective (heq.trans hbefore.symm))

/-! ## Operations -/

/-- Writing refuses a directory, and puts the file anywhere else. -/
theorem write_cases (s : Store) (path : String) (content : ByteArray) :
    (s.isDirectory path = true ∧
      s.write path content = .error (.alreadyExists (normalize path))) ∨
    (s.isDirectory path = false ∧ s.write path content = .ok (s.put (normalize path) content)) := by
  unfold write
  cases s.isDirectory path with
  | true => exact Or.inl ⟨rfl, rfl⟩
  | false => exact Or.inr ⟨rfl, rfl⟩

/-- Making a directory refuses where it or something that encloses it is a file. Else it adds this
one directory and leaves the files alone. -/
theorem createDirectories_cases (s : Store) (path : String) :
    (∃ file ∈ enclosing (normalize path), file ∈ s.paths ∧
      s.createDirectories path = .error (.alreadyExists file)) ∨
    ((∀ file ∈ enclosing (normalize path), file ∉ s.paths) ∧
      ∃ s', s.createDirectories path = .ok s' ∧ s'.files = s.files ∧
        ∀ d, d ∈ s'.directories ↔ d = normalize path ∨ d ∈ s.directories) := by
  unfold createDirectories
  cases hfind : (enclosing (normalize path)).find? s.holds with
  | some file =>
    have hholds := List.find?_some hfind
    exact Or.inl ⟨file, List.mem_of_find?_eq_some hfind, holds_iff.1 hholds, rfl⟩
  | none =>
    refine Or.inr ⟨fun file hfile hpath => ?_, ?_⟩
    · exact List.find?_eq_none.1 hfind file hfile (holds_iff.2 hpath)
    · dsimp only
      split
      · next hmade =>
        refine ⟨s, rfl, rfl, fun d => ?_⟩
        have hmem : normalize path ∈ s.directories := by simpa using hmade
        exact ⟨Or.inr, fun h => h.elim (· ▸ hmem) id⟩
      · exact ⟨_, rfl, rfl, fun d => List.mem_cons⟩

/-! ## Operations of the file system -/

variable {s' : Store} {e : FileError}

theorem fileSystem_write_of_ok (h : s.write path content = .ok s') :
    fileSystem.write path content s = (.ok (), s') := by
  show update (·.write path content) s = _
  rw [update, h]

theorem fileSystem_write_of_error (h : s.write path content = .error e) :
    fileSystem.write path content s = (.error e, s) := by
  show update (·.write path content) s = _
  rw [update, h]

theorem fileSystem_createDirectories_of_ok (h : s.createDirectories path = .ok s') :
    fileSystem.createDirectories path s = (.ok (), s') := by
  show update (·.createDirectories path) s = _
  rw [update, h]

theorem fileSystem_createDirectories_of_error (h : s.createDirectories path = .error e) :
    fileSystem.createDirectories path s = (.error e, s) := by
  show update (·.createDirectories path) s = _
  rw [update, h]

end Store

end ModuleBundler
