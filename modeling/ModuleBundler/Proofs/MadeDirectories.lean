import ModuleBundler.Proofs.Separation
import ModuleBundler.Proofs.Spelling

/-
  What becomes of directories. Nothing takes a directory away: one that is there stays, whatever is
  done afterwards, and is never written over (`staysDirectory_iff`). Making a directory looks at all
  that enclose it, but makes this one only, so that those which were missing are missing still
  (`staysDirectory_made_iff`).
-/

namespace ModuleBundler.Store

variable {s s' : Store} {path p q d : String}

/-! ## Later operations -/

/-- The store after some operations on it. -/
def afterAll (s : Store) (ops : List Operation) : Store := ops.foldl after s

/-- Whether a path is a directory whatever is done, and refuses every file. -/
def StaysDirectory (s : Store) (path : String) : Prop :=
  ∀ ops content, (s.afterAll ops).isDirectory path = true ∧
    (Operation.write path content).perform fileSystem (s.afterAll ops) =
      (.error (.alreadyExists (normalize path)), s.afterAll ops)

theorem isDirectory_after (h : s.isDirectory path = true) (op : Operation) :
    (s.after op).isDirectory path = true := by
  rw [isDirectory, holdsDirectory_iff] at h ⊢
  unfold after
  rcases s.perform_cases op with ⟨e, hop⟩ | ⟨written, content, rfl, -, hop⟩ |
    ⟨made, s', rfl, -, hop, hfiles, hmade⟩
  · rw [hop]
    exact h
  · rw [hop]
    dsimp only
    refine h.imp id ?_
    rintro ⟨file, hfile, hbegins⟩
    exact ⟨file, mem_paths_put.2 (Or.inr hfile), hbegins⟩
  · rw [hop]
    dsimp only
    rw [hmade, paths, hfiles]
    exact h.imp Or.inr id

theorem isDirectory_afterAll (h : s.isDirectory path = true) (ops : List Operation) :
    (s.afterAll ops).isDirectory path = true := by
  induction ops generalizing s with
  | nil => exact h
  | cons op ops ih => exact ih (isDirectory_after h op)

/-- A directory stays one. -/
theorem staysDirectory_iff : s.StaysDirectory path ↔ s.isDirectory path = true := by
  constructor
  · intro h
    exact (h [] .empty).1
  · intro h ops content
    have hlater := isDirectory_afterAll h ops
    refine ⟨hlater, fileSystem_write_of_error ?_⟩
    rw [write, if_pos hlater]

/-! ## Making a directory -/

/-- A directory can be made where neither it nor what encloses it is a file. -/
theorem exists_made_iff : (∃ s', s.createDirectories path = .ok s') ↔
    ∀ file ∈ enclosing (normalize path), file ∉ s.paths := by
  rcases s.createDirectories_cases path with ⟨file, hfile, hstored, herror⟩ | ⟨hfree, made, hok, -⟩
  · refine iff_of_false ?_ fun hfree => hfree file hfile hstored
    rintro ⟨s', hok⟩
    cases herror.symm.trans hok
  · exact iff_of_true ⟨made, hok⟩ hfree

/-- Making a directory makes no other one. -/
theorem isDirectory_made_iff (h : s.createDirectories path = .ok s') :
    s'.isDirectory q = true ↔ normalize q = normalize path ∨ s.isDirectory q = true := by
  rcases s.createDirectories_cases path with ⟨file, -, -, herror⟩ | ⟨-, made, hok, hfiles, hmade⟩
  · cases herror.symm.trans h
  · obtain rfl : made = s' := Except.ok.inj (hok.symm.trans h)
    rw [isDirectory, isDirectory, holdsDirectory_iff, holdsDirectory_iff, hmade, paths, paths,
      hfiles, or_assoc]

/-- What encloses a path is shorter. -/
theorem eq_or_length_lt_of_mem_enclosing (h : d ∈ enclosing p) :
    d = p ∨ d.toList.length < p.toList.length := by
  fun_induction enclosing p with
  | case1 p _ => exact Or.inl (List.mem_singleton.1 h)
  | case2 p parent hparent ih =>
    have hshorter := parent?_length hparent
    rcases List.mem_cons.1 h with rfl | h
    · exact Or.inl rfl
    · rcases ih h with rfl | hlt
      · exact Or.inr hshorter
      · exact Or.inr (hlt.trans hshorter)

/-- What encloses a stored spelling is not spelled alike. -/
theorem normalize_eq_iff_of_mem_enclosing (h : d ∈ enclosing (normalize path)) :
    normalize d = normalize path ↔ d = normalize path := by
  constructor
  · intro heq
    refine (eq_or_length_lt_of_mem_enclosing h).resolve_right fun hlt => ?_
    have hle := length_normalize_le d
    rw [heq] at hle
    exact absurd hlt (Nat.not_lt.2 hle)
  · intro heq
    rw [heq, normalize_normalize]

/-- A directory that is made is there to stay, and so are those of the enclosing ones that were
there before, but no others. -/
theorem staysDirectory_made_iff (h : s.createDirectories path = .ok s') :
    s'.StaysDirectory path ∧ ∀ d ∈ enclosing (normalize path),
      s'.StaysDirectory d ↔ d = normalize path ∨ s.isDirectory d = true := by
  refine ⟨staysDirectory_iff.2 ((isDirectory_made_iff h).2 (Or.inl rfl)), fun d hd => ?_⟩
  rw [staysDirectory_iff, isDirectory_made_iff h, normalize_eq_iff_of_mem_enclosing hd]

/-! ## A directory with its parents -/

/-- A store with a module, in which a directory was made. -/
def toolStore : Store :=
  (ofFiles [("/p/src/main.js", .empty)]).afterAll [.createDirectories "/p/out"]

theorem staysDirectory_made_toolStore :
    ∃ s', toolStore.createDirectories "/p/src\\dist/esm/" = .ok s' ∧
      s'.StaysDirectory "/p/src\\dist/esm/" ∧
      (∀ d ∈ enclosing "/p/src/dist/esm",
        s'.StaysDirectory d ↔ d = "/p/src/dist/esm" ∨ toolStore.isDirectory d = true) ∧
      s'.StaysDirectory "/p/src" ∧ ¬ s'.StaysDirectory "/p/src/dist" := by
  have hspelled : normalize "/p/src\\dist/esm/" = "/p/src/dist/esm" := by decide +kernel
  obtain ⟨s', hmade⟩ := exists_made_iff.2
    (by decide +kernel : ∀ file ∈ enclosing (normalize "/p/src\\dist/esm/"), file ∉ toolStore.paths)
  obtain ⟨hstays, hiff⟩ := staysDirectory_made_iff hmade
  rw [hspelled] at hiff
  refine ⟨s', hmade, hstays, hiff, ?_, ?_⟩
  · exact (hiff "/p/src" (by decide +kernel)).2 (Or.inr (by decide +kernel))
  · rw [hiff "/p/src/dist" (by decide +kernel)]
    decide +kernel

/-- The parent of a directory that was made is none. -/
theorem missing_parent : ∃ s', (ofFiles []).createDirectories "/out/dist" = .ok s' ∧
    "/out" ∈ enclosing (normalize "/out/dist") ∧ s'.isDirectory "/out" = false := by
  obtain ⟨s', hmade⟩ := exists_made_iff.2
    (by decide +kernel : ∀ file ∈ enclosing (normalize "/out/dist"), file ∉ (ofFiles []).paths)
  refine ⟨s', hmade, by decide +kernel, ?_⟩
  rw [← Bool.not_eq_true, isDirectory_made_iff hmade]
  decide +kernel

end ModuleBundler.Store
