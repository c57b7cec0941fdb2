import ModuleBundler.File.Store
import Mathlib.Data.List.Basic

/-
  Clean paths. `IsName` says which segments a clean path may have, and `IsClean` that a text is a
  clean path: such names with slashes between them. Whatever `cleanRelative?` gives is clean
  (`isClean_of_cleanRelative?`). Behind a root and before an ending, a clean path can be read off
  from the stored spelling (`normalize_join_inj`), so that one stored file answers to one clean
  path for each ending only.
-/

namespace ModuleBundler.Path

/-! ## Names -/

/-- A segment that leads to something inside a directory. -/
structure IsName (s : String) : Prop where
  ne_empty : s ≠ ""
  ne_dot : s ≠ "."
  ne_dots : s ≠ ".."
  no_slash : '/' ∉ s.toList
  no_backslash : '\\' ∉ s.toList

/-- A path of names with slashes between them. -/
def IsClean (p : String) : Prop :=
  ∃ names, names ≠ [] ∧ (∀ name ∈ names, IsName name) ∧ p = ofSegments names

variable {p q root ending : String} {names stack : List String} {s : String}

theorem ofSegments_cons_cons (s t : String) (names : List String) :
    ofSegments (s :: t :: names) = s ++ "/" ++ ofSegments (t :: names) :=
  String.intercalate_cons_cons

theorem ofSegments_singleton (s : String) : ofSegments [s] = s := String.intercalate_singleton

theorem backslash_notMem_of_isClean (h : IsClean p) : '\\' ∉ p.toList := by
  obtain ⟨names, hne, hnames, rfl⟩ := h
  induction names with
  | nil => exact absurd rfl hne
  | cons s rest ih =>
    have hs := (hnames s List.mem_cons_self).no_backslash
    match rest with
    | [] => rwa [ofSegments_singleton]
    | t :: rest =>
      have hrest := ih (List.cons_ne_nil _ _) fun n hn => hnames n (List.mem_cons_of_mem s hn)
      rw [ofSegments_cons_cons, String.toList_append, String.toList_append]
      simp [hs, hrest]

theorem isAbsolute_of_isClean (h : IsClean p) (q : String) : isAbsolute (p ++ q) = false := by
  obtain ⟨names, hne, hnames, rfl⟩ := h
  obtain ⟨s, rest, rfl⟩ := List.exists_cons_of_ne_nil hne
  obtain ⟨c, cs, hcs⟩ : ∃ c cs, s.toList = c :: cs :=
    List.exists_cons_of_ne_nil fun h =>
      (hnames s List.mem_cons_self).ne_empty (String.toList_eq_nil_iff.1 h)
  have hc : c ≠ '/' := by
    rintro rfl
    exact (hnames s List.mem_cons_self).no_slash (hcs ▸ List.mem_cons_self)
  have hhead : ∃ more, (ofSegments (s :: rest) ++ q).toList = c :: more := by
    match rest with
    | [] => exact ⟨cs ++ q.toList, by rw [ofSegments_singleton, String.toList_append, hcs]; rfl⟩
    | t :: rest =>
      refine ⟨cs ++ ("/" ++ ofSegments (t :: rest) ++ q).toList, ?_⟩
      rw [ofSegments_cons_cons]
      simp [hcs]
  obtain ⟨more, hmore⟩ := hhead
  rw [isAbsolute, hmore, List.head?_cons]
  simpa using hc

/-- A clean path ends with a character of its last name. -/
theorem exists_last_of_isClean (h : IsClean p) : ∃ cs c, p.toList = cs ++ [c] ∧ c ≠ '/' := by
  obtain ⟨names, hne, hnames, rfl⟩ := h
  induction names with
  | nil => exact absurd rfl hne
  | cons s rest ih =>
    match rest with
    | [] =>
      have hs := hnames s List.mem_cons_self
      have hnil : s.toList ≠ [] := fun h => hs.ne_empty (String.toList_eq_nil_iff.1 h)
      refine ⟨s.toList.dropLast, s.toList.getLast hnil, ?_, ?_⟩
      · rw [ofSegments_singleton, List.dropLast_append_getLast]
      · exact fun h => hs.no_slash (h ▸ List.getLast_mem hnil)
    | t :: rest =>
      obtain ⟨cs, c, hcs, hc⟩ :=
        ih (List.cons_ne_nil _ _) fun n hn => hnames n (List.mem_cons_of_mem s hn)
      refine ⟨s.toList ++ '/' :: cs, c, ?_, hc⟩
      rw [ofSegments_cons_cons, String.toList_append, String.toList_append, hcs]
      simp

/-! ## Cleaning -/

/-- A stack that a walk may leave: names on top of steps out of the starting directory. -/
def IsStack (stack : List String) : Prop :=
  ∃ names out, stack = names ++ List.replicate out ".." ∧ ∀ name ∈ names, IsName name

theorem isStack_walk (h : IsStack stack) (hslash : '/' ∉ s.toList) (hback : '\\' ∉ s.toList) :
    IsStack (walk stack s) := by
  obtain ⟨names, out, rfl, hnames⟩ := h
  unfold walk
  split
  · exact ⟨names, out, rfl, hnames⟩
  · next hdot =>
    rw [Bool.or_eq_true, beq_iff_eq, beq_iff_eq, not_or] at hdot
    split
    · match names, out with
      | [], 0 => exact ⟨[], 1, rfl, hnames⟩
      | [], out + 1 => exact ⟨[], out + 2, rfl, hnames⟩
      | top :: below, out =>
        have htop : ¬ (top == "..") = true :=
          fun h => (hnames top List.mem_cons_self).ne_dots (beq_iff_eq.1 h)
        refine ⟨below, out, ?_, fun n hn => hnames n (List.mem_cons_of_mem top hn)⟩
        rw [List.cons_append]
        dsimp only
        rw [if_neg htop]
    · next hdots =>
      rw [beq_iff_eq] at hdots
      refine ⟨s :: names, out, rfl, fun n hn => ?_⟩
      rcases List.mem_cons.1 hn with rfl | hn
      · exact ⟨hdot.1, hdot.2, hdots, hslash, hback⟩
      · exact hnames n hn

theorem isStack_foldl_walk {segments : List String}
    (hslash : ∀ s ∈ segments, '/' ∉ s.toList) (hback : ∀ s ∈ segments, '\\' ∉ s.toList)
    (h : IsStack stack) : IsStack (segments.foldl walk stack) := by
  induction segments generalizing stack with
  | nil => exact h
  | cons s rest ih =>
    rw [List.foldl_cons]
    exact ih (fun t ht => hslash t (List.mem_cons_of_mem s ht))
      (fun t ht => hback t (List.mem_cons_of_mem s ht))
      (isStack_walk h (hslash s List.mem_cons_self) (hback s List.mem_cons_self))

theorem mem_of_mem_splitOn {separator c : Char} {cs piece : List Char}
    (h : piece ∈ Text.splitOn separator cs) (hc : c ∈ piece) : c ∈ cs := by
  induction cs generalizing piece with
  | nil =>
    rw [Text.splitOn, List.mem_singleton] at h
    rw [h] at hc
    exact hc
  | cons d cs ih =>
    rw [Text.splitOn] at h
    split at h
    · rcases List.mem_cons.1 h with rfl | h
      · exact absurd hc List.not_mem_nil
      · exact List.mem_cons_of_mem d (ih h hc)
    · split at h
      · rw [List.mem_singleton] at h
        rw [h] at hc
        exact List.mem_cons.2 (Or.inl (List.mem_singleton.1 hc))
      · next first pieces hpieces =>
        rcases List.mem_cons.1 h with rfl | h
        · rcases List.mem_cons.1 hc with rfl | hc
          · exact List.mem_cons_self
          · exact List.mem_cons_of_mem d (ih (hpieces ▸ List.mem_cons_self) hc)
        · exact List.mem_cons_of_mem d (ih (hpieces ▸ List.mem_cons_of_mem first h) hc)

theorem slash_notMem_of_mem_segments (h : s ∈ segments p) : '/' ∉ s.toList := by
  obtain ⟨piece, hpiece, rfl⟩ := List.mem_map.1 h
  rw [String.toList_ofList]
  exact Text.not_mem_of_mem_splitOn hpiece

theorem backslash_notMem_withSlashes (p : String) : '\\' ∉ (withSlashes p).toList := by
  rw [withSlashes, String.toList_ofList, List.mem_map]
  rintro ⟨c, -, hc⟩
  split at hc
  · cases hc
  · next hne => exact hne (beq_iff_eq.2 hc)

theorem backslash_notMem_of_mem_segments (h : s ∈ segments (withSlashes p)) :
    '\\' ∉ s.toList := by
  obtain ⟨piece, hpiece, rfl⟩ := List.mem_map.1 h
  rw [String.toList_ofList]
  exact fun hc => backslash_notMem_withSlashes p (mem_of_mem_splitOn hpiece hc)

/-- What comes out of cleaning is clean. -/
theorem isClean_of_cleanRelative? (h : cleanRelative? p = some q) : IsClean q := by
  rw [cleanRelative?] at h
  split at h
  · cases h
  · split at h
    · cases h
    · next first names hsegments =>
      split at h
      · cases h
      · next hdots =>
        obtain rfl := Option.some.inj h
        refine ⟨first :: names, List.cons_ne_nil _ _, ?_, rfl⟩
        obtain ⟨inside, out, hstack, hinside⟩ := isStack_foldl_walk
          (fun s hs => slash_notMem_of_mem_segments hs)
          (fun s hs => backslash_notMem_of_mem_segments (p := p) hs)
          (⟨[], 0, rfl, fun n hn => absurd hn List.not_mem_nil⟩ : IsStack [])
        rw [cleanSegments, hstack, List.reverse_append, List.reverse_replicate] at hsegments
        -- Steps out of the starting directory would come first.
        cases out with
        | zero =>
          rw [List.replicate_zero, List.nil_append] at hsegments
          intro name hname
          rw [← hsegments, List.mem_reverse] at hname
          exact hinside name hname
        | succ out =>
          rw [List.replicate_succ, List.cons_append] at hsegments
          exact absurd (beq_iff_eq.2 (List.cons_eq_cons.1 hsegments).1.symm) hdots

/-! ## Stored spellings of clean paths -/

/-- What stands before a path inside a root. -/
def lead (root : String) : String :=
  if root.isEmpty then "" else if root.toList.getLast? == some '/' then root else root ++ "/"

theorem join_eq_lead (h : isAbsolute p = false) : join root p = lead root ++ p := by
  rw [join, lead, h, Bool.false_or]
  split
  · rw [String.empty_append]
  · split
    · rfl
    · rfl

/-- A character of a path in the stored spelling. -/
def slashed (c : Char) : Char := if c == '\\' then '/' else c

theorem map_slashed_of_notMem {cs : List Char} (h : '\\' ∉ cs) : cs.map slashed = cs := by
  conv => rhs; rw [← List.map_id cs]
  refine List.map_congr_left fun c hc => ?_
  have hne : ¬ (c == '\\') = true := fun heq => h (beq_iff_eq.1 heq ▸ hc)
  rw [slashed, if_neg hne, id_eq]

theorem dropWhile_append_cons {α : Type} {drop : α → Bool} {c : α} (hc : drop c = false)
    (before after : List α) :
    (before ++ c :: after).dropWhile drop = before.dropWhile drop ++ c :: after := by
  rw [List.dropWhile_append]
  split
  · next h =>
    rw [List.isEmpty_iff.1 h, List.nil_append, List.dropWhile_cons_of_neg]
    rw [hc]
    exact Bool.false_ne_true
  · rfl

theorem reverse_dropWhile_of_getLast? {cs : List Char} (h : cs.getLast? ≠ some '/') :
    (cs.reverse.dropWhile (· == '/')).reverse = cs := by
  rw [List.getLast?_eq_head?_reverse] at h
  cases hcs : cs.reverse with
  | nil => rw [List.dropWhile_nil, ← hcs, List.reverse_reverse]
  | cons c rest =>
    have hc : c ≠ '/' := by simpa [hcs] using h
    rw [List.dropWhile_cons_of_neg (by simpa using hc), ← hcs, List.reverse_reverse]

theorem normalize_of_ne_nil {path : String} {kept : List Char}
    (h : ((withSlashes path).toList.reverse.dropWhile (· == '/')).reverse = kept)
    (hne : kept ≠ []) : Store.normalize path = String.ofList kept := by
  cases kept with
  | nil => exact absurd rfl hne
  | cons c cs => simp only [Store.normalize, h]

/-- The stored spelling of a clean path with an ending inside a root. Of the ending, slashes at the
end do not count. -/
theorem normalize_join (h : IsClean p) (root ending : String) :
    Store.normalize (join root (p ++ ending)) = String.ofList
      ((lead root).toList.map slashed ++ p.toList ++
        ((ending.toList.map slashed).reverse.dropWhile (· == '/')).reverse) := by
  obtain ⟨cs, c, hcs, hc⟩ := exists_last_of_isClean h
  have hp : p.toList.map slashed = p.toList :=
    map_slashed_of_notMem (backslash_notMem_of_isClean h)
  have hkept : (((lead root ++ (p ++ ending)).toList.map slashed).reverse.dropWhile
      (· == '/')).reverse = (lead root).toList.map slashed ++ p.toList ++
        ((ending.toList.map slashed).reverse.dropWhile (· == '/')).reverse := by
    rw [String.toList_append, String.toList_append, List.map_append, List.map_append, hp, hcs,
      List.reverse_append, List.reverse_append, List.reverse_append, List.reverse_singleton,
      List.append_assoc, List.singleton_append, List.cons_append,
      dropWhile_append_cons (by simpa using hc)]
    simp
  rw [← hkept]
  apply normalize_of_ne_nil
  · rw [join_eq_lead (isAbsolute_of_isClean h ending), withSlashes, String.toList_ofList]
    rfl
  · rw [hkept, hcs]
    simp

/-- Inside one root and before one ending, clean paths with one stored spelling are the same. -/
theorem normalize_join_inj (hp : IsClean p) (hq : IsClean q)
    (h : Store.normalize (join root (p ++ ending)) = Store.normalize (join root (q ++ ending))) :
    p = q := by
  rw [normalize_join hp, normalize_join hq] at h
  have hlists := String.ofList_injective h
  rw [List.append_assoc, List.append_assoc] at hlists
  exact String.toList_injective (List.append_cancel_right (List.append_cancel_left hlists))

end ModuleBundler.Path
