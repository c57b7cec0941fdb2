import Mathlib.Data.List.Induction
import ModuleBundler.Proofs.Store

/-
  Files and directories kept apart. A store is `Separated` if no path is both a file and a directory
  and no file lies above another file or above a directory that was made. Writing refuses a path
  that files lie below, and making a directory refuses one that lies below a file, but neither looks
  the other way, so an operation that is carried out may still be `Misplaced`. These operations
  spoil a separated store and no others do (`separated_after_iff`): a run from an empty store stays
  separated exactly as long as it has none of them (`separated_iff_not_misplaced`).
-/

namespace ModuleBundler.Store

/-! ## Operations and runs -/

/-- What a program asks a file system to change. -/
inductive Operation where
  | write (path : String) (content : ByteArray)
  | createDirectories (path : String)

/-- An operation on a file system. -/
def Operation.perform {m : Type → Type} (fs : FileSystem m) :
    Operation → m (Except FileError Unit)
  | .write path content => fs.write path content
  | .createDirectories path => fs.createDirectories path

/-- The store after an operation, whether it succeeds or not. -/
def after (s : Store) (op : Operation) : Store := (op.perform fileSystem s).2

/-- The store after some operations on an empty one. -/
def run (ops : List Operation) : Store := ops.foldl after (ofFiles [])

variable {s s' : Store} {op : Operation} {ops : List Operation} {path p q : String}
  {content : ByteArray}

theorem run_concat (ops : List Operation) (op : Operation) :
    run (ops ++ [op]) = (run ops).after op := by
  rw [run, List.foldl_append]
  rfl

/-- What an operation can do: nothing at all, put a file where no directory is, or make a directory
that no file encloses. -/
theorem perform_cases (s : Store) (op : Operation) :
    (∃ e, op.perform fileSystem s = (.error e, s)) ∨
    (∃ path content, op = .write path content ∧ s.isDirectory path = false ∧
      op.perform fileSystem s = (.ok (), s.put (normalize path) content)) ∨
    (∃ path s', op = .createDirectories path ∧
      (∀ file ∈ enclosing (normalize path), file ∉ s.paths) ∧
      op.perform fileSystem s = (.ok (), s') ∧ s'.files = s.files ∧
      ∀ d, d ∈ s'.directories ↔ d = normalize path ∨ d ∈ s.directories) := by
  cases op with
  | write path content =>
    rcases s.write_cases path content with ⟨-, h⟩ | ⟨hnot, h⟩
    · exact Or.inl ⟨_, fileSystem_write_of_error h⟩
    · exact Or.inr (Or.inl ⟨path, content, rfl, hnot, fileSystem_write_of_ok h⟩)
  | createDirectories path =>
    rcases s.createDirectories_cases path with ⟨file, -, -, h⟩ | ⟨hfree, s', h, hfiles, hmade⟩
    · exact Or.inl ⟨_, fileSystem_createDirectories_of_error h⟩
    · exact Or.inr (Or.inr
        ⟨path, s', rfl, hfree, fileSystem_createDirectories_of_ok h, hfiles, hmade⟩)

/-! ## Separated stores -/

/-- Whether the files of a store are apart from its directories and from each other. -/
structure Separated (s : Store) : Prop where
  one_kind : ∀ path, ¬ (s.isFile path = true ∧ s.isDirectory path = true)
  nothing_below : ∀ file ∈ s.paths, ∀ p, p ∈ s.paths ∨ p ∈ s.directories → ¬ IsAbove file p

/-- Whether an operation that is carried out does not look where it should: it writes the root, a
file below a file or a file above a directory that was made, or it makes an absolute directory
although there is a file under the empty path. -/
def Misplaced (s : Store) (op : Operation) : Prop :=
  (op.perform fileSystem s).1 = .ok () ∧
    match op with
    | .write path _ => normalize path = "/" ∨
        (∃ file ∈ s.paths, IsAbove file (normalize path)) ∨
        ∃ d ∈ s.directories, IsAbove (normalize path) d
    | .createDirectories path => "" ∈ s.paths ∧ Path.isAbsolute (normalize path) = true

theorem separated_empty : Separated (ofFiles []) where
  one_kind path h := by simpa [isFile, holds, ofFiles] using h.1
  nothing_below file hfile := by simp [paths, ofFiles] at hfile

/-- A stored spelling has the prefix of what lies below it only if it is the root. -/
theorem eq_root_of_below (hp : IsSpelling p) (h : (below p).toList <+: p.toList) : p = "/" := by
  by_contra hne
  rw [toList_below hp, if_neg hne] at h
  have := h.length_le
  rw [List.length_append, List.length_singleton] at this
  omega

/-- The empty path is in front of the slash of an absolute one. -/
theorem isAbove_empty_iff : IsAbove "" p ↔ Path.isAbsolute p = true := by
  have hbelow : (below "").toList = ['/'] := by decide +kernel
  rw [IsAbove, hbelow, Path.isAbsolute, beq_iff_eq]
  constructor
  · rintro ⟨⟨rest, hrest⟩, -⟩
    rw [← hrest]
    rfl
  · intro h
    obtain ⟨rest, hrest⟩ := List.head?_eq_some_iff.1 h
    refine ⟨⟨rest, hrest.symm⟩, ?_⟩
    rintro rfl
    cases hrest

/-- A file that is put where no directory is leaves the store separated unless it is the root or
something lies above or below it. -/
theorem separated_put_iff (hs : s.Separated) (hnot : s.isDirectory path = false) :
    (s.put (normalize path) content).Separated ↔
      ¬ (normalize path = "/" ∨ (∃ file ∈ s.paths, IsAbove file (normalize path)) ∨
        ∃ d ∈ s.directories, IsAbove (normalize path) d) := by
  have hspelling := isSpelling_normalize path
  generalize hp : normalize path = p at hspelling ⊢
  have hfree : ¬ (p ∈ s.directories ∨ ∃ file ∈ s.paths, (below p).toList <+: file.toList) := by
    rw [← holdsDirectory_iff, ← hp, ← isDirectory, hnot]
    exact Bool.false_ne_true
  rw [not_or] at hfree
  constructor
  · rintro h (rfl | ⟨file, hfile, habove⟩ | ⟨d, hd, habove⟩)
    · have hroot : normalize "/" = "/" := by decide +kernel
      refine h.one_kind "/" ⟨isFile_iff.2 (by simp [hroot]), ?_⟩
      rw [isDirectory, holdsDirectory_iff]
      exact Or.inr ⟨"/", by simp, by decide +kernel⟩
    · exact h.nothing_below file (mem_paths_put.2 (Or.inr hfile)) p
        (Or.inl (mem_paths_put.2 (Or.inl rfl))) habove
    · exact h.nothing_below p (mem_paths_put.2 (Or.inl rfl)) d (Or.inr hd) habove
  · intro h
    rw [not_or, not_or] at h
    obtain ⟨hroot, hfiles, hmade⟩ := h
    have hbelow : ∀ file ∈ (s.put p content).paths, ∀ q,
        q ∈ (s.put p content).paths ∨ q ∈ s.directories → ¬ IsAbove file q := by
      intro file hfile q hq habove
      rcases mem_paths_put.1 hfile with rfl | hold
      · rcases hq with hq | hq
        · rcases mem_paths_put.1 hq with rfl | hq
          · exact habove.2 rfl
          · exact hfree.2 ⟨q, hq, habove.1⟩
        · exact hmade ⟨q, hq, habove⟩
      · rcases hq with hq | hq
        · rcases mem_paths_put.1 hq with rfl | hq
          · exact hfiles ⟨file, hold, habove⟩
          · exact hs.nothing_below file hold q (Or.inl hq) habove
        · exact hs.nothing_below file hold q (Or.inr hq) habove
    refine ⟨?_, hbelow⟩
    rintro other ⟨hfile, hdirectory⟩
    rw [isFile_iff] at hfile
    rw [isDirectory, holdsDirectory_iff] at hdirectory
    have hother : ¬ (normalize other ∈ s.paths ∧ s.isDirectory other = true) := by
      rw [← isFile_iff]
      exact hs.one_kind other
    rw [isDirectory, holdsDirectory_iff] at hother
    generalize normalize other = r at hfile hdirectory hother
    rcases hdirectory with hmade' | ⟨file, hin, hbegins⟩
    · rcases mem_paths_put.1 hfile with rfl | hold
      · exact hfree.1 hmade'
      · exact hother ⟨hold, Or.inl hmade'⟩
    · by_cases hsame : r = file
      · subst hsame
        rcases mem_paths_put.1 hfile with rfl | hold
        · exact hroot (eq_root_of_below hspelling hbegins)
        · exact hother ⟨hold, Or.inr ⟨r, hold, hbegins⟩⟩
      · exact hbelow r hfile file (Or.inl hin) ⟨hbegins, hsame⟩

/-- A directory that no file encloses leaves the store separated unless it is an absolute one and
there is a file under the empty path. -/
theorem separated_made_iff (hs : s.Separated) (hspelled : ∀ file ∈ s.paths, IsSpelling file)
    (hfree : ∀ file ∈ enclosing p, file ∉ s.paths) (hfiles : s'.files = s.files)
    (hmade : ∀ d, d ∈ s'.directories ↔ d = p ∨ d ∈ s.directories) :
    s'.Separated ↔ ¬ ("" ∈ s.paths ∧ Path.isAbsolute p = true) := by
  have hpaths : s'.paths = s.paths := by rw [paths, paths, hfiles]
  constructor
  · rintro h ⟨hempty, habsolute⟩
    exact h.nothing_below "" (hpaths ▸ hempty) p (Or.inr ((hmade p).2 (Or.inl rfl)))
      (isAbove_empty_iff.2 habsolute)
  · intro h
    refine ⟨?_, ?_⟩
    · rintro other ⟨hfile, hdirectory⟩
      have hother := hs.one_kind other
      rw [isFile_iff, isDirectory, holdsDirectory_iff] at hother
      rw [isFile_iff, hpaths] at hfile
      rw [isDirectory, holdsDirectory_iff, hpaths, hmade] at hdirectory
      rcases hdirectory with (heq | hold) | hbelow
      · exact hfree p (mem_enclosing_self p) (heq ▸ hfile)
      · exact hother ⟨hfile, Or.inl hold⟩
      · exact hother ⟨hfile, Or.inr hbelow⟩
    · intro file hfile q hq habove
      rw [hpaths] at hfile hq
      rw [hmade] at hq
      rcases hq with hq | rfl | hq
      · exact hs.nothing_below file hfile q (Or.inl hq) habove
      · by_cases hempty : file = ""
        · subst hempty
          exact h ⟨hfile, isAbove_empty_iff.1 habove⟩
        · exact hfree file (mem_enclosing_of_isAbove habove (hspelled file hfile) hempty) hfile
      · exact hs.nothing_below file hfile q (Or.inr hq) habove

/-! ## Runs -/

theorem isSpelling_after (h : ∀ file ∈ s.paths, IsSpelling file) (op : Operation) :
    ∀ file ∈ (s.after op).paths, IsSpelling file := by
  unfold after
  rcases s.perform_cases op with ⟨e, hop⟩ | ⟨path, content, rfl, -, hop⟩ |
    ⟨path, s', rfl, -, hop, hfiles, -⟩
  · rw [hop]
    exact h
  · rw [hop]
    dsimp only
    intro file hfile
    rw [mem_paths_put] at hfile
    rcases hfile with hnew | hold
    · rw [hnew]
      exact isSpelling_normalize path
    · exact h file hold
  · rw [hop, paths, hfiles]
    exact h

theorem isSpelling_run (ops : List Operation) : ∀ file ∈ (run ops).paths, IsSpelling file := by
  induction ops using List.reverseRecOn with
  | nil => simp [run, paths, ofFiles]
  | append_singleton ops op ih =>
    rw [run_concat]
    exact isSpelling_after ih op

/-- An operation spoils a separated store exactly if it is misplaced. -/
theorem separated_after_iff (hs : s.Separated) (hspelled : ∀ file ∈ s.paths, IsSpelling file)
    (op : Operation) : (s.after op).Separated ↔ ¬ Misplaced s op := by
  unfold after Misplaced
  rcases s.perform_cases op with ⟨e, h⟩ | ⟨path, content, rfl, hnot, h⟩ |
    ⟨path, s', rfl, hfree, h, hfiles, hmade⟩
  · simp [h, hs]
  · rw [h, separated_put_iff hs hnot]
    simp
  · rw [h, separated_made_iff hs hspelled hfree hfiles hmade]
    simp

/-- A run from an empty store keeps files and directories apart all along exactly if none of its
operations is misplaced. -/
theorem separated_iff_not_misplaced (ops : List Operation) :
    (∀ before, before <+: ops → (run before).Separated) ↔
      ∀ before op, before ++ [op] <+: ops → ¬ Misplaced (run before) op := by
  constructor
  · intro h before op hbegins
    have hbefore := h before ((List.prefix_append before [op]).trans hbegins)
    rw [← separated_after_iff hbefore (isSpelling_run before), ← run_concat]
    exact h _ hbegins
  · intro h before hbegins
    induction before using List.reverseRecOn with
    | nil => exact separated_empty
    | append_singleton before op ih =>
      have hbefore := ih ((List.prefix_append before [op]).trans hbegins)
      rw [run_concat, separated_after_iff hbefore (isSpelling_run before)]
      exact h before op hbegins

/-- A file that is written below a file makes a directory of it. -/
theorem file_and_directory_after_write_below :
    (run [.write "/out" .empty, .write "/out/a.js" .empty]).isFile "/out" = true ∧
      (run [.write "/out" .empty, .write "/out/a.js" .empty]).isDirectory "/out" = true := by
  decide +kernel

end ModuleBundler.Store
