import Mathlib.Data.List.Induction
import Mathlib.Data.List.Nodup
import Mathlib.Logic.Relation

/-
  Breadth-first discovery. From a root on, places are left one after another in the order in which
  they were first met, and each place that is left leads to others. A row holds a place that was
  left and what it leads to. `BreadthFirst` says of a list of rows that its places stand in the
  order of discovery: by the first row that leads to a place, and inside that row by the first
  mention.

  `Exploring` is the invariant of a search that has come as far as some rows, with other places
  met but not left: all of them together are the first mentions so far. A search that has left
  every place it met is breadth-first (`Exploring.breadthFirst`). A search over finitely many places
  can be carried on until then (`Exploring.exists_breadthFirst`), and the places of a function have
  one order of discovery only (`BreadthFirst.unique`).
-/

namespace ModuleBundler.Discovery

variable {α : Type} [DecidableEq α]

/-! ## First mentions in a list -/

theorem nodup_eraseDups (l : List α) : l.eraseDups.Nodup := by
  match l with
  | [] => simp
  | a :: l =>
    rw [List.eraseDups_cons, List.nodup_cons]
    refine ⟨fun h => ?_, nodup_eraseDups _⟩
    simp [List.mem_eraseDups] at h
termination_by l.length
decreasing_by exact Nat.lt_succ_of_le (List.length_filter_le _ _)

/-- Without repetitions, members stand in the order of their first mention. -/
theorem pairwise_eraseDups_filter (p : α → Bool) (l : List α) :
    (l.filter p).eraseDups.Pairwise fun a b => l.idxOf a < l.idxOf b := by
  induction l generalizing p with
  | nil => simp
  | cons c l ih =>
    by_cases hc : p c
    · rw [List.filter_cons_of_pos hc, List.eraseDups_cons, List.filter_filter, List.pairwise_cons]
      have hne : ∀ b ∈ (l.filter fun b => (!b == c) && p b).eraseDups, c ≠ b := by
        intro b hb hcb
        simp [List.mem_eraseDups, hcb] at hb
      refine ⟨fun b hb => ?_, (ih _).imp_of_mem fun ha hb hab => ?_⟩
      · rw [List.idxOf_cons_self, List.idxOf_cons_ne _ (hne b hb)]
        exact Nat.succ_pos _
      · rw [List.idxOf_cons_ne _ (hne _ ha), List.idxOf_cons_ne _ (hne _ hb)]
        exact Nat.succ_lt_succ hab
    · rw [List.filter_cons_of_neg hc]
      have hne : ∀ b ∈ (l.filter p).eraseDups, c ≠ b := by
        rintro b hb rfl
        rw [List.mem_eraseDups, List.mem_filter] at hb
        exact hc hb.2
      refine (ih p).imp_of_mem fun ha hb hab => ?_
      rw [List.idxOf_cons_ne _ (hne _ ha), List.idxOf_cons_ne _ (hne _ hb)]
      exact Nat.succ_lt_succ hab

/-! ## Rows and their order -/

/-- The root and all that the rows lead to, each once, in the order of first mention. -/
def known (root : α) (rows : List (α × List α)) : List α :=
  (root :: rows.flatMap (·.2)).eraseDups

/-- The position of the first row that leads to a place. -/
def firstRow (rows : List (α × List α)) (a : α) : Nat :=
  rows.findIdx fun row => row.2.contains a

/-- The position of a place in the first row that leads to it. -/
def firstEdge (rows : List (α × List α)) (a : α) : Nat :=
  ((rows.find? fun row => row.2.contains a).map (·.2.idxOf a)).getD 0

/-- The order in which rows lead to places first. -/
def FoundBefore (rows : List (α × List α)) (a b : α) : Prop :=
  firstRow rows a < firstRow rows b ∨
    firstRow rows a = firstRow rows b ∧ firstEdge rows a < firstEdge rows b

/-- The rows of a breadth-first search from a root: every place once, the root in front, each of
the others after a row that leads to it, and in the order in which the rows lead to them first. -/
structure BreadthFirst (root : α) (rows : List (α × List α)) : Prop where
  root_first : (rows.map (·.1)).head? = some root
  nodup : (rows.map (·.1)).Nodup
  closed : ∀ row ∈ rows, ∀ a ∈ row.2, a ∈ rows.map (·.1)
  found_earlier : ∀ a ∈ rows.map (·.1), a ≠ root → firstRow rows a < (rows.map (·.1)).idxOf a
  sorted : (rows.map (·.1)).tail.Pairwise (FoundBefore rows)

variable {root a : α} {rows before more : List (α × List α)} {row : α × List α}

theorem mem_known : a ∈ known root rows ↔ a = root ∨ a ∈ rows.flatMap (·.2) := by
  rw [known, List.mem_eraseDups, List.mem_cons]

theorem nodup_known (root : α) (rows : List (α × List α)) : (known root rows).Nodup :=
  nodup_eraseDups _

theorem known_nil (root : α) : known root ([] : List (α × List α)) = [root] := by
  simp [known, List.eraseDups_cons]

theorem known_append (root : α) (rows more : List (α × List α)) :
    known root (rows ++ more) =
      known root rows ++ ((more.flatMap (·.2)).removeAll (known root rows)).eraseDups := by
  have hmem : ∀ b, (root :: rows.flatMap (·.2)).elem b = (known root rows).elem b := by
    intro b
    rw [Bool.eq_iff_iff, List.elem_iff, List.elem_iff, mem_known, List.mem_cons]
  rw [known, List.flatMap_append, ← List.cons_append, List.eraseDups_append, ← known]
  simp only [List.removeAll, hmem]

theorem known_prefix (root : α) (rows more : List (α × List α)) :
    known root rows <+: known root (rows ++ more) :=
  ⟨_, (known_append root rows more).symm⟩

theorem known_eq_cons (root : α) (rows : List (α × List α)) :
    known root rows = root :: ((rows.flatMap (·.2)).filter fun b => !b == root).eraseDups := by
  rw [known, List.eraseDups_cons]

theorem firstRow_lt_iff : firstRow rows a < rows.length ↔ a ∈ rows.flatMap (·.2) := by
  rw [firstRow, List.findIdx_lt_length, List.mem_flatMap]
  simp only [List.contains_iff_mem]

theorem firstRow_append_of_mem (h : a ∈ rows.flatMap (·.2)) :
    firstRow (rows ++ more) a = firstRow rows a := by
  have hlt : rows.findIdx (fun row => row.2.contains a) < rows.length := firstRow_lt_iff.2 h
  rw [firstRow, List.findIdx_append, if_pos hlt, firstRow]

theorem firstEdge_append_of_mem (h : a ∈ rows.flatMap (·.2)) :
    firstEdge (rows ++ more) a = firstEdge rows a := by
  obtain ⟨row, hrow, ha⟩ := List.mem_flatMap.1 h
  have hsome : (rows.find? fun row => row.2.contains a).isSome :=
    List.find?_isSome.2 ⟨row, hrow, List.contains_iff_mem.2 ha⟩
  obtain ⟨found, hfound⟩ := Option.isSome_iff_exists.1 hsome
  rw [firstEdge, firstEdge, List.find?_append, hfound, Option.some_or]

theorem firstRow_concat_of_notMem (h : a ∉ rows.flatMap (·.2)) (ha : a ∈ row.2) :
    firstRow (rows ++ [row]) a = rows.length := by
  have hge : ¬ rows.findIdx (fun row => row.2.contains a) < rows.length :=
    fun hlt => h (firstRow_lt_iff.1 hlt)
  have hcontains : row.2.contains a = true := List.contains_iff_mem.2 ha
  rw [firstRow, List.findIdx_append, if_neg hge, List.findIdx_cons, hcontains, cond_true,
    Nat.zero_add]

theorem firstEdge_concat_of_notMem (h : a ∉ rows.flatMap (·.2)) (ha : a ∈ row.2) :
    firstEdge (rows ++ [row]) a = row.2.idxOf a := by
  have hnone : (rows.find? fun row => row.2.contains a) = none := by
    rw [List.find?_eq_none]
    intro r hr hra
    exact h (List.mem_flatMap.2 ⟨r, hr, List.contains_iff_mem.1 hra⟩)
  have hlast : [row].find? (fun row => row.2.contains a) = some row :=
    List.find?_cons_of_pos (List.contains_iff_mem.2 ha)
  rw [firstEdge, List.find?_append, hnone, Option.none_or, hlast, Option.map_some,
    Option.getD_some]

/-- What rows lead to comes in the order in which they lead to it first. -/
theorem sorted_known (root : α) (rows : List (α × List α)) :
    (known root rows).tail.Pairwise (FoundBefore rows) := by
  induction rows using List.reverseRecOn with
  | nil => simp [known_nil]
  | append_singleton rows row ih =>
    -- The new places are those of the last row that no row before it leads to.
    have hsplit : (known root (rows ++ [row])).tail = (known root rows).tail ++
        (row.2.filter fun b => !(known root rows).elem b).eraseDups := by
      rw [known_append, known_eq_cons, List.cons_append, List.tail_cons, List.tail_cons,
        List.flatMap_singleton, List.removeAll]
    have hold : ∀ b ∈ (known root rows).tail, b ∈ rows.flatMap (·.2) := by
      intro b hb
      rw [known_eq_cons, List.tail_cons, List.mem_eraseDups, List.mem_filter] at hb
      exact hb.1
    have hnew : ∀ b ∈ (row.2.filter fun b => !(known root rows).elem b).eraseDups,
        b ∉ rows.flatMap (·.2) ∧ b ∈ row.2 := by
      intro b hb
      rw [List.mem_eraseDups, List.mem_filter, Bool.not_eq_true', ← Bool.not_eq_true,
        List.elem_iff, mem_known] at hb
      exact ⟨fun h => hb.2 (Or.inr h), hb.1⟩
    rw [hsplit, List.pairwise_append]
    refine ⟨ih.imp_of_mem fun ha hb hab => ?_,
      (pairwise_eraseDups_filter _ _).imp_of_mem fun ha hb hab => ?_, fun a ha b hb => ?_⟩
    · rw [FoundBefore, firstRow_append_of_mem (hold _ ha), firstRow_append_of_mem (hold _ hb),
        firstEdge_append_of_mem (hold _ ha), firstEdge_append_of_mem (hold _ hb)]
      exact hab
    · obtain ⟨ha, ha'⟩ := hnew _ ha
      obtain ⟨hb, hb'⟩ := hnew _ hb
      rw [FoundBefore, firstRow_concat_of_notMem ha ha', firstRow_concat_of_notMem hb hb',
        firstEdge_concat_of_notMem ha ha', firstEdge_concat_of_notMem hb hb']
      exact Or.inr ⟨rfl, hab⟩
    · obtain ⟨hb, hb'⟩ := hnew _ hb
      rw [FoundBefore, firstRow_append_of_mem (hold _ ha), firstRow_concat_of_notMem hb hb']
      exact Or.inl (firstRow_lt_iff.2 (hold _ ha))

/-- The first row that leads to a place is one of the rows in front exactly if one of these does. -/
theorem firstRow_append_lt_iff :
    firstRow (before ++ more) a < before.length ↔ a ∈ before.flatMap (·.2) := by
  constructor
  · intro h
    by_contra hnot
    have hge : ¬ before.findIdx (fun row => row.2.contains a) < before.length :=
      fun hlt => hnot (firstRow_lt_iff.1 hlt)
    rw [firstRow, List.findIdx_append, if_neg hge] at h
    omega
  · intro h
    rw [firstRow_append_of_mem h]
    exact firstRow_lt_iff.2 h

theorem FoundBefore.asymm {b : α} (h : FoundBefore rows a b) : ¬ FoundBefore rows b a := by
  intro h'
  rw [FoundBefore] at h h'
  omega

/-! ## Searches -/

/-- Every place was known before it was left. -/
def InTime (root : α) (rows : List (α × List α)) : Prop :=
  ∀ before row after, rows = before ++ row :: after → row.1 ∈ known root before

/-- A search that has left the places of the rows and has met `pending` besides: together they are
what is known, and every place was known before it was left. -/
structure Exploring (root : α) (rows : List (α × List α)) (pending : List α) : Prop where
  known_eq : rows.map (·.1) ++ pending = known root rows
  inTime : InTime root rows

variable {pending : List α}

theorem InTime.of_append (h : InTime root (rows ++ more)) : InTime root rows := by
  intro before row after hrows
  apply h before row (after ++ more)
  rw [hrows, List.append_assoc, List.cons_append]

theorem exploring_start (root : α) : Exploring root [] [root] where
  known_eq := (known_nil root).symm
  inTime before row after h := by simp at h

theorem Exploring.nodup (h : Exploring root rows pending) : (rows.map (·.1) ++ pending).Nodup := by
  rw [h.known_eq]
  exact nodup_known root rows

/-- The first of the places that are pending is left, and what it leads to is met. -/
theorem Exploring.leave (h : Exploring root rows (a :: pending)) (targets : List α) :
    Exploring root (rows ++ [(a, targets)])
      (pending ++ (targets.removeAll (rows.map (·.1) ++ a :: pending)).eraseDups) where
  known_eq := by
    rw [known_append, ← h.known_eq, List.flatMap_singleton, List.map_append, List.map_singleton,
      List.append_assoc, List.append_assoc, List.singleton_append, List.cons_append]
  inTime before row after hsplit := by
    rcases List.eq_nil_or_concat after with rfl | ⟨rest, last, rfl⟩
    · obtain ⟨rfl, hrow⟩ := List.append_inj' hsplit rfl
      obtain rfl := List.singleton_inj.1 hrow
      rw [← h.known_eq]
      exact List.mem_append_right _ List.mem_cons_self
    · have hrows : rows ++ [(a, targets)] = (before ++ row :: rest) ++ [last] := by
        rw [hsplit, List.concat_eq_append, List.append_assoc, List.cons_append]
      exact h.inTime before row rest (List.append_inj' hrows rfl).1

/-- A search that has left every place it met is breadth-first. -/
theorem Exploring.breadthFirst (h : Exploring root rows []) : BreadthFirst root rows := by
  have hknown : rows.map (·.1) = known root rows := by rw [← h.known_eq, List.append_nil]
  refine ⟨?_, ?_, ?_, ?_, ?_⟩
  · rw [hknown, known_eq_cons, List.head?_cons]
  · rw [hknown]
    exact nodup_known root rows
  · intro row hrow a ha
    rw [hknown, mem_known]
    exact Or.inr (List.mem_flatMap.2 ⟨row, hrow, ha⟩)
  · intro a ha hroot
    obtain ⟨row, hrow, rfl⟩ := List.mem_map.1 ha
    obtain ⟨before, after, rfl⟩ := List.append_of_mem hrow
    have hearlier : row.1 ∈ before.flatMap (·.2) :=
      (mem_known.1 (h.inTime before row after rfl)).resolve_left hroot
    have hnot : row.1 ∉ before.map (·.1) := by
      have hnodup := h.nodup
      rw [List.append_nil, List.map_append, List.map_cons] at hnodup
      intro hmem
      exact (List.nodup_append.1 hnodup).2.2 _ hmem _ List.mem_cons_self rfl
    have hidx : ((before ++ row :: after).map (·.1)).idxOf row.1 = before.length := by
      rw [List.map_append, List.idxOf_append_of_notMem hnot, List.map_cons,
        List.idxOf_cons_self, List.length_map, Nat.add_zero]
    rw [hidx]
    exact firstRow_append_lt_iff.2 hearlier
  · rw [hknown]
    exact sorted_known root rows

/-- A breadth-first search has left every place it met. -/
theorem BreadthFirst.exploring (h : BreadthFirst root rows) : Exploring root rows [] := by
  have hmem : ∀ a, a ∈ rows.map (·.1) ↔ a ∈ known root rows := by
    intro a
    rw [mem_known]
    constructor
    · intro ha
      by_cases hroot : a = root
      · exact Or.inl hroot
      · have hlt := Nat.lt_trans (h.found_earlier a ha hroot) (List.idxOf_lt_length_iff.2 ha)
        rw [List.length_map] at hlt
        exact Or.inr (firstRow_lt_iff.1 hlt)
    · rintro (rfl | ha)
      · exact List.mem_of_mem_head? h.root_first
      · obtain ⟨row, hrow, ha⟩ := List.mem_flatMap.1 ha
        exact h.closed row hrow a ha
  constructor
  · -- Two lists with the same head, the same members and the same order are the same.
    obtain ⟨tail, htail⟩ := List.head?_eq_some_iff.1 h.root_first
    obtain ⟨tail', htail'⟩ : ∃ tail', known root rows = root :: tail' :=
      ⟨_, known_eq_cons root rows⟩
    have hperm : (root :: tail).Perm (root :: tail') := by
      rw [← htail, ← htail', List.perm_ext_iff_of_nodup h.nodup (nodup_known root rows)]
      exact hmem
    have hsorted : tail.Pairwise (FoundBefore rows) := by
      have := h.sorted
      rwa [htail, List.tail_cons] at this
    have hsorted' : tail'.Pairwise (FoundBefore rows) := by
      have := sorted_known root rows
      rwa [htail', List.tail_cons] at this
    rw [List.append_nil, htail, htail', ((List.perm_cons root).1 hperm).eq_of_pairwise
      (fun a b _ _ hab hba => absurd hba hab.asymm) hsorted hsorted']
  · intro before row after hrows
    rw [mem_known]
    by_cases hroot : row.1 = root
    · exact Or.inl hroot
    · have hrow : row.1 ∈ rows.map (·.1) := by
        rw [hrows, List.map_append, List.map_cons]
        exact List.mem_append_right _ List.mem_cons_self
      have hidx : (rows.map (·.1)).idxOf row.1 ≤ before.length := by
        rw [hrows, List.map_append, List.map_cons, List.idxOf_append]
        split
        · next hin =>
          rw [← List.length_map (·.1)]
          exact Nat.le_of_lt (List.idxOf_lt_length_iff.2 hin)
        · have hzero : (row.1 :: after.map (·.1)).idxOf row.1 = 0 := List.idxOf_cons_self
          rw [hzero, List.length_map]
          omega
      have hlt := Nat.lt_of_lt_of_le (h.found_earlier row.1 hrow hroot) hidx
      rw [hrows] at hlt
      exact Or.inr (firstRow_append_lt_iff.1 hlt)

/-! ## Searches along a function -/

/-- Places with what a function gives for them. -/
def rowsOf (next : α → List α) (order : List α) : List (α × List α) :=
  order.map fun a => (a, next a)

variable {next : α → List α} {order order' : List α}

omit [DecidableEq α] in
theorem rowsOf_fst (next : α → List α) (order : List α) :
    (rowsOf next order).map (·.1) = order := by
  rw [rowsOf, List.map_map]
  exact List.map_id order

omit [DecidableEq α] in
theorem rowsOf_append (next : α → List α) (order order' : List α) :
    rowsOf next (order ++ order') = rowsOf next order ++ rowsOf next order' :=
  List.map_append

/-- Whatever a search knows can be reached from the root. -/
theorem reachable_of_mem_known (h : InTime root (rowsOf next order)) :
    ∀ a ∈ known root (rowsOf next order), Relation.ReflTransGen (fun a b => b ∈ next a) root a := by
  induction order using List.reverseRecOn with
  | nil =>
    intro a ha
    rw [rowsOf, List.map_nil, known_nil, List.mem_singleton] at ha
    rw [ha]
  | append_singleton order last ih =>
    intro a ha
    rw [rowsOf_append] at h ha
    have hlast := ih h.of_append last (h (rowsOf next order) (last, next last) [] rfl)
    rw [mem_known, List.flatMap_append, List.mem_append, ← or_assoc, ← mem_known] at ha
    rcases ha with ha | ha
    · exact ih h.of_append a ha
    · rw [rowsOf, List.map_singleton, List.flatMap_singleton] at ha
      exact hlast.tail ha

/-- A breadth-first search leaves exactly the places that can be reached from its root. -/
theorem BreadthFirst.mem_iff_reachable (h : BreadthFirst root (rowsOf next order)) :
    a ∈ order ↔ Relation.ReflTransGen (fun a b => b ∈ next a) root a := by
  have hknown := h.exploring.known_eq
  rw [rowsOf_fst, List.append_nil] at hknown
  constructor
  · intro ha
    rw [hknown] at ha
    exact reachable_of_mem_known h.exploring.inTime a ha
  · intro ha
    induction ha with
    | refl =>
      rw [hknown, mem_known]
      exact Or.inl rfl
    | tail _ hstep ih =>
      have := h.closed _ (List.mem_map.2 ⟨_, ih, rfl⟩) _ hstep
      rwa [rowsOf_fst] at this

/-- The place that a search leaves next is settled by those it has left. -/
theorem BreadthFirst.getElem?_eq (h : BreadthFirst root (rowsOf next order)) (n : Nat) :
    order[n]? = (known root (rowsOf next (order.take n)))[n]? := by
  have hknown := h.exploring.known_eq
  rw [rowsOf_fst, List.append_nil] at hknown
  have hpre : known root (rowsOf next (order.take n)) <+: order := by
    have := known_prefix root (rowsOf next (order.take n)) (rowsOf next (order.drop n))
    rwa [← rowsOf_append, List.take_append_drop, ← hknown] at this
  obtain ⟨rest, hrest⟩ := hpre
  by_cases hn : n < order.length
  · have hsplit : order = order.take n ++ order[n] :: order.drop (n + 1) := by
      rw [List.getElem_cons_drop, List.take_append_drop]
    have hin : order[n] ∈ known root (rowsOf next (order.take n)) := by
      refine h.exploring.inTime (rowsOf next (order.take n)) (order[n], next order[n])
        (rowsOf next (order.drop (n + 1))) ?_
      conv => lhs; rw [hsplit]
      rw [rowsOf_append]
      rfl
    -- Nothing stands twice, so the place cannot come only after what is known.
    have hlt : n < (known root (rowsOf next (order.take n))).length := by
      have hnodup : order.Nodup := by
        have := h.nodup
        rwa [rowsOf_fst] at this
      obtain ⟨i, hi, hget⟩ := List.getElem_of_mem hin
      have hi' : i < order.length := by
        rw [← hrest, List.length_append]
        omega
      have hsame : order[i] = order[n] := by
        rw [← hget, ← List.getElem_append_left hi]
        exact (List.getElem_of_eq hrest.symm hi')
      have := (List.Nodup.getElem_inj_iff hnodup).1 hsame
      omega
    conv => lhs; rw [← hrest]
    rw [List.getElem?_append_left hlt]
  · have hle : order.length ≤ n := Nat.le_of_not_lt hn
    rw [List.take_of_length_le hle, ← hknown]

/-- There is one order of discovery only. -/
theorem BreadthFirst.unique (h : BreadthFirst root (rowsOf next order))
    (h' : BreadthFirst root (rowsOf next order')) : order = order' := by
  have htake : ∀ n, order.take n = order'.take n := by
    intro n
    induction n with
    | zero => rw [List.take_zero, List.take_zero]
    | succ n ih => rw [List.take_add_one, List.take_add_one, h.getElem?_eq, h'.getElem?_eq, ih]
  refine List.ext_getElem? fun n => ?_
  rw [h.getElem?_eq, h'.getElem?_eq, htake]

/-- Where only so many places can be reached, a search can be carried on until it is
breadth-first. -/
theorem Exploring.exists_breadthFirst {limit : Nat}
    (hlimit : ∀ l : List α, l.Nodup →
      (∀ a ∈ l, Relation.ReflTransGen (fun a b => b ∈ next a) root a) → l.length ≤ limit)
    (h : Exploring root (rowsOf next order) pending) :
    ∃ rest, BreadthFirst root (rowsOf next (order ++ pending ++ rest)) := by
  -- Each place that is left brings the search nearer to the bound.
  induction hn : limit - order.length generalizing order pending with
  | zero =>
    match pending with
    | [] =>
      refine ⟨[], ?_⟩
      rw [List.append_nil, List.append_nil]
      exact h.breadthFirst
    | a :: pending =>
      have hnodup := h.nodup
      have hlen := hlimit _ (h.known_eq ▸ hnodup) (reachable_of_mem_known h.inTime)
      rw [← h.known_eq, rowsOf_fst, List.length_append, List.length_cons] at hlen
      omega
  | succ n ih =>
    match pending with
    | [] =>
      refine ⟨[], ?_⟩
      rw [List.append_nil, List.append_nil]
      exact h.breadthFirst
    | a :: pending =>
      have hleave := h.leave (next a)
      rw [show rowsOf next order ++ [(a, next a)] = rowsOf next (order ++ [a]) from
        (rowsOf_append next order [a]).symm] at hleave
      obtain ⟨rest, hrest⟩ := ih hleave (by rw [List.length_append, List.length_singleton]; omega)
      rw [List.append_assoc order, ← List.append_assoc [a], List.singleton_append,
        ← List.append_assoc order, List.append_assoc] at hrest
      exact ⟨_, hrest⟩

end ModuleBundler.Discovery
