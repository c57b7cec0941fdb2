import ModuleBundler.Graph.Build
import ModuleBundler.Proofs.Discovery

/-
  What putting records into a graph and modules into a queue does to the identifiers. A record under
  a new identifier comes to the end (`insert_ids`). A queue grows by what is neither in the
  graph nor in the queue, each identifier once, in the order of first mention (`enqueue_ids`).
-/

namespace ModuleBundler.Graph

variable {g : Graph} {r : Record} {id : ModuleId} {queue targets : List Located} {l : Located}

/-! ## Looking up -/

theorem contains_iff : g.contains id = true ↔ id ∈ g.ids := by
  rw [contains, ids, List.any_eq_true, List.mem_map]
  simp only [beq_iff_eq]

theorem get?_eq_some (h : g.ids.Nodup) (hr : r ∈ g.records) : g.get? r.id = some r := by
  obtain ⟨before, after, hsplit⟩ := List.append_of_mem hr
  rw [ids, hsplit, List.map_append, List.map_cons] at h
  have hnone : before.find? (·.id == r.id) = none := by
    rw [List.find?_eq_none]
    intro other hother hsame
    exact (List.nodup_append.1 h).2.2 _ (List.mem_map_of_mem hother) _ List.mem_cons_self
      (beq_iff_eq.1 hsame)
  rw [get?, hsplit, List.find?_append, hnone, Option.none_or]
  exact List.find?_cons_of_pos (beq_self_eq_true r.id)

theorem isClosed_iff : g.isClosed = true ↔ ∀ r ∈ g.records, ∀ d ∈ r.dependencies, d.2 ∈ g.ids := by
  rw [isClosed, List.isEmpty_iff, openEdges, List.flatMap_eq_nil_iff]
  refine forall₂_congr fun r _ => ?_
  rw [openEdgesOf, List.map_eq_nil_iff, List.filter_eq_nil_iff]
  refine forall₂_congr fun d _ => ?_
  rw [← contains_iff, Bool.not_eq_true', Bool.not_eq_false]

/-- What is looked up before a module joins a queue. -/
theorem isMet_iff : (g.contains id || queue.any (·.id == id)) = true ↔
    id ∈ g.ids ++ queue.map (·.id) := by
  rw [Bool.or_eq_true, contains_iff, List.mem_append, List.mem_map, List.any_eq_true]
  simp only [beq_iff_eq]

/-! ## Putting in -/

theorem insertRecord_of_notMem {records : List Record} (h : r.id ∉ records.map (·.id)) :
    insertRecord r records = records ++ [r] := by
  induction records with
  | nil => rfl
  | cons old rest ih =>
    rw [List.map_cons, List.mem_cons, not_or] at h
    have hne : ¬ (old.id == r.id) = true := fun heq => h.1 (beq_iff_eq.1 heq).symm
    rw [insertRecord, if_neg hne, ih h.2, List.cons_append]

theorem insert_records (h : r.id ∉ g.ids) : (g.insert r).records = g.records ++ [r] :=
  insertRecord_of_notMem h

theorem insert_ids (h : r.id ∉ g.ids) : (g.insert r).ids = g.ids ++ [r.id] := by
  rw [ids, insert_records h, List.map_append, List.map_singleton, ids]

/-- A queue grows by the first mentions of new identifiers. -/
theorem enqueue_ids (g : Graph) (queue targets : List Located) :
    (g.enqueue queue targets).map (·.id) = queue.map (·.id) ++
      ((targets.map (·.id)).removeAll (g.ids ++ queue.map (·.id))).eraseDups := by
  induction targets generalizing queue with
  | nil => simp [enqueue, List.removeAll]
  | cons l rest ih =>
    have hknown : (g.contains l.id || queue.any (·.id == l.id)) = true ↔
        (g.ids ++ queue.map (·.id)).contains l.id = true :=
      isMet_iff.trans List.contains_iff_mem.symm
    rw [enqueue, List.map_cons, List.cons_removeAll]
    by_cases hl : (g.ids ++ queue.map (·.id)).contains l.id = true
    · rw [if_pos (hknown.2 hl), ih, hl]
      rfl
    · rw [if_neg fun h => hl (hknown.1 h), ih, Bool.not_eq_true _ |>.mp hl, if_pos rfl]
      -- What equals the identifier that joined the queue is struck out on both sides.
      have hstrike : ((rest.map (·.id)).removeAll (g.ids ++ queue.map (·.id))).filter
          (fun b => !b == l.id) =
          (rest.map (·.id)).removeAll (g.ids ++ (queue ++ [l]).map (·.id)) := by
        simp only [List.removeAll, List.filter_filter]
        refine List.filter_congr fun b _ => ?_
        rw [List.map_append, List.map_singleton, ← List.append_assoc, Bool.eq_iff_iff]
        generalize g.ids ++ queue.map (·.id) = met
        simp [and_comm]
      rw [List.eraseDups_cons, hstrike, List.map_append,
        List.map_singleton, List.append_assoc, List.singleton_append]

end ModuleBundler.Graph
