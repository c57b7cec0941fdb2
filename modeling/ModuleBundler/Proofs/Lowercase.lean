import Mathlib.Data.List.DropRight
import ModuleBundler.ModuleId
import ModuleBundler.Proofs.Path

/-
  Lower case and the slashes of a path. Slashes have no case, end every word, and come from no other
  character (`lowerIn_separator`, `isSeparator_of_mem_lowerIn`). So the lower case of a path can be
  taken between its slashes (`lowerAfter_append_separator`), in either spelling
  (`lowerAfter_map_slashed`) and with or without those at the end (`lowerAfter_trimmed`), and two
  paths with one stored spelling are the same if their lower case is (`eq_of_lower_eq`).
-/

namespace ModuleBundler.Text

open ModuleBundler.Path

variable {c d : Char} {cs rest before front : List Char}

/-! ## Separators -/

/-- Whether a character separates the names of a path, in either spelling. -/
def isSeparator (c : Char) : Bool := c == '/' || c == '\\'

theorem isSeparator_iff : isSeparator c = true ↔ c = '/' ∨ c = '\\' := by
  simp [isSeparator]

theorem isSeparator_slashed (c : Char) : isSeparator (slashed c) = isSeparator c := by
  unfold slashed
  split
  · next h => rw [beq_iff_eq.1 h]; decide
  · rfl

theorem slashed_of_not_isSeparator (h : isSeparator c = false) : slashed c = c := by
  refine if_neg fun hc => ?_
  rw [beq_iff_eq.1 hc] at h
  cases h

theorem isCased_of_isSeparator (h : isSeparator c = true) : isCased c = false := by
  rcases isSeparator_iff.1 h with rfl | rfl <;> decide +kernel

theorem isCaseIgnorable_of_isSeparator (h : isSeparator c = true) :
    isCaseIgnorable c = false := by
  rcases isSeparator_iff.1 h with rfl | rfl <;> decide +kernel

theorem lowerChar_of_isSeparator (h : isSeparator c = true) : lowerChar c = [c] := by
  rcases isSeparator_iff.1 h with rfl | rfl <;> decide +kernel

theorem lower_of_mem_lowerRuns : ∀ r ∈ lowerRuns, 0x5c < r.lower := by decide +kernel

theorem not_isSeparator_ofNat {n : Nat} (h : 0x5c < n) : isSeparator (Char.ofNat n) = false := by
  by_cases hvalid : n.isValidChar
  · have hn : (Char.ofNat n).toNat = n := by
      rw [Char.ofNat, dif_pos hvalid]
      rfl
    rw [← Bool.not_eq_true, isSeparator_iff]
    rintro (hc | hc)
    · rw [hc] at hn
      have : ('/' : Char).toNat = 47 := rfl
      omega
    · rw [hc] at hn
      have : ('\\' : Char).toNat = 92 := rfl
      omega
  · rw [Char.ofNat, dif_neg hvalid]
    decide

theorem not_isSeparator_toLower (hc : isSeparator c = false) (hascii : c.toNat < 0x80) :
    isSeparator c.toLower = false := by
  have hall : ∀ n < 0x80, isSeparator (Char.ofNat n) = false →
      isSeparator (Char.ofNat n).toLower = false := by decide
  have := hall c.toNat hascii
  rw [Char.ofNat_toNat] at this
  exact this hc

/-- The lower form of a character that is no separator holds none. -/
theorem not_isSeparator_of_mem_lowerChar (hc : isSeparator c = false) (h : d ∈ lowerChar c) :
    isSeparator d = false := by
  unfold lowerChar at h
  split at h
  · next hascii =>
    rw [List.mem_singleton.1 h]
    exact not_isSeparator_toLower hc hascii
  · split at h
    · rcases List.mem_cons.1 h with rfl | h
      · decide
      · rw [List.mem_singleton.1 h]
        decide
    · split at h
      · next r hfind =>
        rw [List.mem_singleton.1 h]
        have := lower_of_mem_lowerRuns r (List.mem_of_find?_eq_some hfind)
        exact not_isSeparator_ofNat (by omega)
      · rw [List.mem_singleton.1 h]
        exact hc

theorem lowerChar_ne_nil (c : Char) : lowerChar c ≠ [] := by
  unfold lowerChar
  split
  · exact List.cons_ne_nil _ _
  · split
    · exact List.cons_ne_nil _ _
    · split <;> exact List.cons_ne_nil _ _

/-! ## One character among others -/

/-- The lower form of a character after some characters, nearest first, and before others. -/
def lowerIn (before : List Char) (c : Char) (cs : List Char) : List Char :=
  if c == capitalSigma then
    if meetsCased before && !meetsCased cs then ['\u03c2'] else ['\u03c3']
  else lowerChar c

theorem lowerAfter_cons (before : List Char) (c : Char) (cs : List Char) :
    lowerAfter before (c :: cs) = lowerIn before c cs ++ lowerAfter (c :: before) cs := rfl

theorem lowerIn_congr {before' cs' : List Char} (hbefore : meetsCased before = meetsCased before')
    (hcs : meetsCased cs = meetsCased cs') : lowerIn before c cs = lowerIn before' c cs' := by
  rw [lowerIn, lowerIn, hbefore, hcs]

theorem lowerIn_separator (h : isSeparator c = true) (before cs : List Char) :
    lowerIn before c cs = [c] := by
  unfold lowerIn
  split
  · next hsigma =>
    rw [beq_iff_eq.1 hsigma] at h
    exact absurd h (by decide)
  · exact lowerChar_of_isSeparator h

theorem lowerIn_ne_nil (before : List Char) (c : Char) (cs : List Char) :
    lowerIn before c cs ≠ [] := by
  unfold lowerIn
  split
  · split <;> exact List.cons_ne_nil _ _
  · exact lowerChar_ne_nil c

theorem not_isSeparator_of_mem_lowerIn (hc : isSeparator c = false)
    (h : d ∈ lowerIn before c cs) : isSeparator d = false := by
  unfold lowerIn at h
  split at h
  · split at h
    · rw [List.mem_singleton.1 h]
      decide
    · rw [List.mem_singleton.1 h]
      decide
  · exact not_isSeparator_of_mem_lowerChar hc h

/-! ## Between separators -/

/-- Nothing behind a separator counts when the end of a word is looked for. -/
theorem meetsCased_append_separator (h : isSeparator c = true) (cs rest : List Char) :
    meetsCased (cs ++ c :: rest) = meetsCased cs := by
  unfold meetsCased
  rw [dropWhile_append_cons (isCaseIgnorable_of_isSeparator h)]
  cases cs.dropWhile isCaseIgnorable with
  | nil => exact isCased_of_isSeparator h
  | cons d ds => rfl

theorem lowerAfter_behind_separator (h : isSeparator c = true) (front before cs : List Char) :
    lowerAfter (front ++ c :: before) cs = lowerAfter front cs := by
  induction cs generalizing front with
  | nil => rfl
  | cons d cs ih =>
    rw [lowerAfter_cons, lowerAfter_cons, ← List.cons_append, ih,
      lowerIn_congr (meetsCased_append_separator h front before) rfl]

theorem lowerAfter_append_separator (h : isSeparator c = true) (before cs rest : List Char) :
    lowerAfter before (cs ++ c :: rest) = lowerAfter before cs ++ c :: lowerAfter [] rest := by
  induction cs generalizing before with
  | nil =>
    rw [List.nil_append, lowerAfter_cons, lowerIn_separator h]
    exact congrArg (c :: ·) (lowerAfter_behind_separator h [] before rest)
  | cons d cs ih =>
    rw [List.cons_append, lowerAfter_cons, lowerAfter_cons, ih, List.append_assoc,
      lowerIn_congr rfl (meetsCased_append_separator h cs rest)]

/-! ## Spellings -/

theorem isCaseIgnorable_slashed (c : Char) : isCaseIgnorable (slashed c) = isCaseIgnorable c := by
  cases h : isSeparator c with
  | true =>
    rw [isCaseIgnorable_of_isSeparator h, isCaseIgnorable_of_isSeparator]
    rw [isSeparator_slashed, h]
  | false => rw [slashed_of_not_isSeparator h]

theorem isCased_slashed (c : Char) : isCased (slashed c) = isCased c := by
  cases h : isSeparator c with
  | true =>
    rw [isCased_of_isSeparator h, isCased_of_isSeparator]
    rw [isSeparator_slashed, h]
  | false => rw [slashed_of_not_isSeparator h]

theorem meetsCased_map_slashed (cs : List Char) : meetsCased (cs.map slashed) = meetsCased cs := by
  unfold meetsCased
  have hdrop : isCaseIgnorable ∘ slashed = isCaseIgnorable := funext isCaseIgnorable_slashed
  rw [List.dropWhile_map, hdrop]
  cases cs.dropWhile isCaseIgnorable with
  | nil => rfl
  | cons d ds => exact isCased_slashed d

theorem lowerIn_slashed (before : List Char) (c : Char) (cs : List Char) :
    lowerIn (before.map slashed) (slashed c) (cs.map slashed) =
      (lowerIn before c cs).map slashed := by
  rw [lowerIn_congr (meetsCased_map_slashed before) (meetsCased_map_slashed cs)]
  cases h : isSeparator c with
  | true =>
    rw [lowerIn_separator h, lowerIn_separator (by rw [isSeparator_slashed, h])]
    rfl
  | false =>
    rw [slashed_of_not_isSeparator h, map_slashed_of_notMem]
    intro hmem
    cases not_isSeparator_of_mem_lowerIn h hmem

/-- The lower case of a path in the stored spelling is the stored spelling of its lower case. -/
theorem lowerAfter_map_slashed (before cs : List Char) :
    lowerAfter (before.map slashed) (cs.map slashed) = (lowerAfter before cs).map slashed := by
  induction cs generalizing before with
  | nil => rfl
  | cons c cs ih =>
    rw [List.map_cons, lowerAfter_cons, lowerAfter_cons, List.map_append, ← ih, lowerIn_slashed,
      List.map_cons]

/-! ## Slashes at the end -/

/-- A path in the stored spelling, without the slashes at its end. -/
def trimmed (cs : List Char) : List Char := (cs.map slashed).rdropWhile (· == '/')

theorem exists_slashes (cs : List Char) :
    ∃ n, cs.map slashed = trimmed cs ++ List.replicate n '/' := by
  have hslashes := List.eq_replicate_of_mem (l := (cs.map slashed).rtakeWhile (· == '/'))
    fun c hc => beq_iff_eq.1 (List.mem_rtakeWhile_imp (p := (· == '/')) hc)
  refine ⟨((cs.map slashed).rtakeWhile (· == '/')).length, ?_⟩
  rw [← hslashes, trimmed, List.rdropWhile_append_rtakeWhile]

theorem getLast?_trimmed (cs : List Char) : (trimmed cs).getLast? ≠ some '/' := by
  intro h
  have := List.head?_dropWhile_not (· == '/') (cs.map slashed).reverse
  rw [trimmed, List.rdropWhile, List.getLast?_reverse] at h
  rw [h] at this
  simp at this

theorem rdropWhile_append_slashes (h : cs.getLast? ≠ some '/') (n : Nat) :
    (cs ++ List.replicate n '/').rdropWhile (· == '/') = cs := by
  induction n with
  | zero =>
    rw [List.replicate_zero, List.append_nil, List.rdropWhile, reverse_dropWhile_of_getLast? h]
  | succ n ih =>
    rw [List.replicate_succ', ← List.append_assoc, List.rdropWhile_concat_pos _ _ _ (by rfl), ih]

theorem lowerAfter_append_slashes (before cs : List Char) (n : Nat) :
    lowerAfter before (cs ++ List.replicate n '/') =
      lowerAfter before cs ++ List.replicate n '/' := by
  induction n generalizing before cs with
  | zero => simp
  | succ n ih =>
    rw [List.replicate_succ, lowerAfter_append_separator (by decide)]
    exact congrArg (lowerAfter before cs ++ '/' :: ·) (ih [] [])

/-- The lower case of a path ends with a slash only if the path does. -/
theorem getLast?_lowerAfter (before : List Char) (h : cs.getLast? ≠ some '/') :
    (lowerAfter before cs).getLast? ≠ some '/' := by
  induction cs generalizing before with
  | nil => exact h
  | cons c rest ih =>
    rw [lowerAfter_cons, List.getLast?_append]
    cases rest with
    | nil =>
      intro hlast
      have hmem := List.mem_of_getLast? hlast
      cases hc : isSeparator c with
      | true =>
        rw [lowerIn_separator hc] at hlast
        exact h hlast
      | false => cases not_isSeparator_of_mem_lowerIn hc hmem
    | cons d rest =>
      rw [List.getLast?_cons_cons] at h
      have hlast := ih (c :: before) h
      cases hlower : (lowerAfter (c :: before) (d :: rest)).getLast? with
      | none =>
        rw [List.getLast?_eq_none_iff, lowerAfter_cons, List.append_eq_nil_iff] at hlower
        exact absurd hlower.1 (lowerIn_ne_nil _ _ _)
      | some last => rwa [hlower] at hlast

/-- Slashes at the end may be left out before or after the lower case is taken. -/
theorem lowerAfter_trimmed (cs : List Char) :
    lowerAfter [] (trimmed cs) = trimmed (lowerAfter [] cs) := by
  obtain ⟨n, hn⟩ := exists_slashes cs
  have hslashed : (lowerAfter [] cs).map slashed =
      lowerAfter [] (trimmed cs) ++ List.replicate n '/' := by
    rw [← lowerAfter_map_slashed, List.map_nil, hn, lowerAfter_append_slashes]
  have hlast := getLast?_lowerAfter [] (getLast?_trimmed cs)
  unfold trimmed at hlast hslashed ⊢
  rw [hslashed, rdropWhile_append_slashes hlast]

/-! ## Back from lower case -/

/-- Lower case keeps all separators. -/
theorem filter_isSeparator_lowerAfter (before cs : List Char) :
    (lowerAfter before cs).filter isSeparator = cs.filter isSeparator := by
  induction cs generalizing before with
  | nil => rfl
  | cons c cs ih =>
    rw [lowerAfter_cons, List.filter_append, ih, List.filter_cons]
    cases h : isSeparator c with
    | true => simp [lowerIn_separator h, h]
    | false =>
      have hnone : (lowerIn before c cs).filter isSeparator = [] := by
        rw [List.filter_eq_nil_iff]
        intro d hd
        rw [not_isSeparator_of_mem_lowerIn h hd]
        exact Bool.false_ne_true
      rw [if_neg Bool.false_ne_true, hnone, List.nil_append]

/-- Two spellings with the same separators are the same. -/
theorem eq_of_map_slashed_eq {cs' : List Char} (hslashed : cs.map slashed = cs'.map slashed)
    (hseparators : cs.filter isSeparator = cs'.filter isSeparator) : cs = cs' := by
  induction cs generalizing cs' with
  | nil => exact (List.map_eq_nil_iff.1 hslashed.symm).symm
  | cons c cs ih =>
    match cs' with
    | [] => cases hslashed
    | c' :: cs' =>
      obtain ⟨hc, hcs⟩ := List.cons_eq_cons.1 hslashed
      have hsame : isSeparator c = isSeparator c' := by
        rw [← isSeparator_slashed c, hc, isSeparator_slashed]
      rw [List.filter_cons, List.filter_cons, ← hsame] at hseparators
      cases h : isSeparator c with
      | true =>
        rw [h, if_pos rfl, if_pos rfl] at hseparators
        obtain ⟨rfl, hrest⟩ := List.cons_eq_cons.1 hseparators
        rw [ih hcs hrest]
      | false =>
        rw [h, if_neg Bool.false_ne_true, if_neg Bool.false_ne_true] at hseparators
        rw [slashed_of_not_isSeparator h, slashed_of_not_isSeparator (hsame ▸ h)] at hc
        rw [hc, ih hcs hseparators]

/-- Two paths with one stored spelling, up to slashes at the end, are the same if they are in lower
case. -/
theorem eq_of_lower_eq {cs' : List Char} (htrimmed : trimmed cs = trimmed cs')
    (hlower : lowerAfter [] cs = lowerAfter [] cs') : cs = cs' := by
  have hseparators : cs.filter isSeparator = cs'.filter isSeparator := by
    rw [← filter_isSeparator_lowerAfter [] cs, hlower, filter_isSeparator_lowerAfter]
  obtain ⟨n, hn⟩ := exists_slashes cs
  obtain ⟨n', hn'⟩ := exists_slashes cs'
  have hcount : ∀ ds : List Char, ((ds.map slashed).filter isSeparator).length =
      (ds.filter isSeparator).length := by
    intro ds
    rw [List.filter_map, List.length_map]
    exact congrArg (fun p => (ds.filter p).length) (funext isSeparator_slashed)
  have hsame : n = n' := by
    have := hcount cs
    rw [hseparators, ← hcount cs', hn, hn', htrimmed] at this
    simpa [List.filter_replicate, show isSeparator '/' = true by decide] using this
  refine eq_of_map_slashed_eq ?_ hseparators
  rw [hn, hn', htrimmed, hsame]

end ModuleBundler.Text
