import ModuleBundler.Proofs.Store

/-
  The spelling under which a path is stored. It is told by what it looks like and by what may be
  missing of the path: slashes stand for backslashes, and those at the end are dropped, but not the
  last one of a path that holds nothing else (`normalize_eq_iff`). So a stored spelling is its own
  (`normalize_of_isSpelling`), and no longer than a path that it is the spelling of.
-/

namespace ModuleBundler.Store

variable {path form other : String}

/-- Whether a text is the stored spelling of a path: the path with slashes for its backslashes and
without the slashes at its end, of which one stays if there is nothing else. -/
structure Spells (form path : String) : Prop where
  isSpelling : IsSpelling form
  trailing : ∃ n, (Path.withSlashes path).toList = form.toList ++ List.replicate n '/'
  nonempty : form = "" → path = ""

theorem length_withSlashes (path : String) :
    (Path.withSlashes path).toList.length = path.toList.length := by
  rw [Path.withSlashes, String.toList_ofList, List.length_map]

theorem exists_trailing (chars : List Char) : ∃ n,
    chars = (chars.reverse.dropWhile (· == '/')).reverse ++ List.replicate n '/' := by
  refine ⟨(chars.reverse.takeWhile (· == '/')).length, ?_⟩
  have hslashes : chars.reverse.takeWhile (· == '/') =
      List.replicate (chars.reverse.takeWhile (· == '/')).length '/' :=
    List.eq_replicate_of_mem fun c hc => by simpa using List.mem_takeWhile_imp hc
  rw [← List.reverse_replicate, ← hslashes, ← List.reverse_append,
    List.takeWhile_append_dropWhile, List.reverse_reverse]

theorem spells_normalize (path : String) : Spells (normalize path) path := by
  obtain ⟨n, hn⟩ := exists_trailing (Path.withSlashes path).toList
  have hlength := length_withSlashes path
  refine ⟨isSpelling_normalize path, ?_, ?_⟩
  · unfold normalize
    dsimp only
    split
    · next hkept =>
      rw [hkept, List.nil_append] at hn
      rw [hn]
      cases n with
      | zero => exact ⟨0, rfl⟩
      | succ n => exact ⟨n, by simp [List.replicate_succ]⟩
    · exact ⟨n, by rw [String.toList_ofList, ← hn]⟩
  · unfold normalize
    dsimp only
    split
    · split
      · next hempty =>
        intro _
        rw [List.isEmpty_iff.1 hempty] at hlength
        exact String.toList_eq_nil_iff.1 (List.eq_nil_of_length_eq_zero hlength.symm)
      · exact fun h => absurd h (by decide)
    · next hkept =>
      intro h
      rw [← String.toList_eq_nil_iff, String.toList_ofList] at h
      exact absurd h hkept

/-- Of two spellings of one path, neither is longer. -/
theorem Spells.unique_of_le {n m : Nat} (h : Spells form path)
    (hother : other = "" → path = "")
    (hn : (Path.withSlashes path).toList = form.toList ++ List.replicate n '/')
    (hm : (Path.withSlashes path).toList = other.toList ++ List.replicate m '/') (hle : n ≤ m) :
    form = other := by
  obtain ⟨k, rfl⟩ := Nat.exists_eq_add_of_le hle
  rw [hn, Nat.add_comm, ← List.replicate_append_replicate, ← List.append_assoc] at hm
  have hform := List.append_cancel_right hm
  cases k with
  | zero => exact String.toList_injective (by simpa using hform)
  | succ k =>
    rw [List.replicate_succ', ← List.append_assoc] at hform
    -- The longer one ends with a slash, so it is the root, and nothing is left for the other.
    have hroot : form = "/" := h.isSpelling.closed (by rw [hform, List.getLast?_concat])
    have hempty : other.toList = [] := by
      have hlength := congrArg List.length hform
      rw [hroot] at hlength
      simp only [List.length_append, List.length_replicate, List.length_singleton] at hlength
      have hone : ("/" : String).toList.length = 1 := rfl
      exact List.eq_nil_of_length_eq_zero (by omega)
    have hpath := hother (String.toList_eq_nil_iff.1 hempty)
    rw [hpath, hroot] at hn
    cases hn

theorem Spells.unique (h : Spells form path) (h' : Spells other path) : form = other := by
  obtain ⟨n, hn⟩ := h.trailing
  obtain ⟨m, hm⟩ := h'.trailing
  rcases Nat.le_total n m with hle | hle
  · exact h.unique_of_le h'.nonempty hn hm hle
  · exact (h'.unique_of_le h.nonempty hm hn hle).symm

/-- The stored spelling of a path is the one text that looks like it. -/
theorem normalize_eq_iff : normalize path = form ↔ Spells form path := by
  constructor
  · rintro rfl
    exact spells_normalize path
  · exact (spells_normalize path).unique

theorem normalize_of_isSpelling (h : IsSpelling form) : normalize form = form := by
  refine normalize_eq_iff.2 ⟨h, ⟨0, ?_⟩, id⟩
  rw [Path.withSlashes, String.toList_ofList, List.replicate_zero, List.append_nil]
  exact Path.map_slashed_of_notMem h.slashes

theorem normalize_normalize (path : String) : normalize (normalize path) = normalize path :=
  normalize_of_isSpelling (isSpelling_normalize path)

theorem length_normalize_le (path : String) :
    (normalize path).toList.length ≤ path.toList.length := by
  obtain ⟨n, hn⟩ := (spells_normalize path).trailing
  rw [← length_withSlashes path, hn, List.length_append]
  exact Nat.le_add_right _ _

end ModuleBundler.Store
