import ModuleBundler.Graph.Indexed
import ModuleBundler.Proofs.Assembly

/-
  The views of a graph with a table. The order of the identifiers and the table of the records are
  kept apart, and every record that is put in changes both so that they fit (`Keeps.insert`): the
  order is that of the first records of the identifiers, and the table has the last ones. So
  whatever is asked of the graph, of its order or of its table, the answer is that of one list of
  records (`viewsAgree_ofRecords`), which is the graph that a build makes.
-/

namespace ModuleBundler.IndexedGraph

open ModuleBundler.Graph (current edges)

variable {g : IndexedGraph} {entry id : ModuleId} {rs : List Record} {r : Record}

/-- The graph into which records were put one after the other. -/
def ofRecords (entry : ModuleId) (rs : List Record) : IndexedGraph :=
  rs.foldl (fun g r => (g.insert r).2) (empty entry)

/-! ## Putting in -/

/-- Whether the order of a graph is that of the first records of their identifiers, and its table
has the last ones. -/
structure Keeps (g : IndexedGraph) (entry : ModuleId) (rs : List Record) : Prop where
  entry_eq : g.entry = entry
  order_eq : g.order = (rs.map (·.id)).eraseDups
  table_eq : ∀ id, g.table[id]? = rs.reverse.find? (·.id == id)

theorem keeps_empty (entry : ModuleId) : Keeps (empty entry) entry [] where
  entry_eq := rfl
  order_eq := rfl
  table_eq _ := Std.HashMap.getElem?_empty

theorem eraseDups_concat (ids : List ModuleId) (id : ModuleId) :
    (ids ++ [id]).eraseDups = if id ∈ ids then ids.eraseDups else ids.eraseDups ++ [id] := by
  rw [List.eraseDups_append, List.cons_removeAll]
  by_cases hid : id ∈ ids
  · rw [if_pos hid, List.contains_iff_mem.2 hid]
    exact List.append_nil _
  · rw [if_neg hid, Bool.eq_false_iff.2 (mt List.contains_iff_mem.1 hid)]
    rfl

/-- There is no last record of an identifier just if none came in. -/
theorem find?_reverse_isNone_iff :
    (rs.reverse.find? (·.id == id)).isNone = true ↔ id ∉ rs.map (·.id) := by
  rw [Option.isNone_iff_eq_none, List.find?_eq_none]
  simp

theorem Keeps.insert (h : Keeps g entry rs) (r : Record) :
    Keeps (g.insert r).2 entry (rs ++ [r]) where
  entry_eq := h.entry_eq
  order_eq := by
    rw [List.map_append, List.map_singleton, eraseDups_concat, ← h.order_eq]
    have hnew : g.table[r.id]?.isNone = true ↔ r.id ∉ rs.map (·.id) := by
      rw [h.table_eq]
      exact find?_reverse_isNone_iff
    unfold IndexedGraph.insert
    dsimp only
    by_cases hr : r.id ∈ rs.map (·.id)
    · rw [if_pos hr, if_neg (mt hnew.1 (not_not.2 hr))]
    · rw [if_neg hr, if_pos (hnew.2 hr)]
  table_eq id := by
    unfold IndexedGraph.insert
    dsimp only
    rw [Std.HashMap.getElem?_insert, h.table_eq, Graph.find?_reverse_concat]
    simp only [beq_iff_eq]

theorem keeps_ofRecords (entry : ModuleId) (rs : List Record) :
    Keeps (ofRecords entry rs) entry rs := by
  induction rs using List.reverseRecOn with
  | nil => exact keeps_empty entry
  | append_singleton rs r ih =>
    rw [ofRecords, List.foldl_append]
    exact ih.insert r

/-! ## Looking -/

theorem nodup_current (rs : List Record) : ((current rs).map (·.id)).Nodup := by
  rw [Graph.ids_current]
  exact Discovery.nodup_eraseDups _

/-- A record that counts is found under its identifier. -/
theorem find?_current_self (h : r ∈ current rs) :
    (current rs).find? (·.id == r.id) = some r :=
  Graph.get?_eq_some (g := ⟨r.id, current rs⟩) (nodup_current rs) h

/-- Among the records that count, an identifier has the last one that came in under it. -/
theorem find?_current (rs : List Record) (id : ModuleId) :
    (current rs).find? (·.id == id) = rs.reverse.find? (·.id == id) := by
  cases hlast : rs.reverse.find? (·.id == id) with
  | none =>
    have hnot := find?_reverse_isNone_iff.1 (Option.isNone_iff_eq_none.2 hlast)
    rw [← List.mem_eraseDups, ← Graph.ids_current] at hnot
    rw [List.find?_eq_none]
    exact fun r hr hid => hnot (List.mem_map.2 ⟨r, hr, beq_iff_eq.1 hid⟩)
  | some last =>
    have hid : last.id = id := by simpa using List.find?_some hlast
    have hmem : id ∈ (rs.map (·.id)).eraseDups := by
      rw [List.mem_eraseDups, ← hid]
      exact List.mem_map_of_mem (List.mem_reverse.1 (List.mem_of_find?_eq_some hlast))
    rw [← hid] at hmem hlast ⊢
    exact find?_current_self (List.mem_filterMap.2 ⟨last.id, hmem, hlast⟩)

theorem Keeps.get?_eq (h : Keeps g entry rs) (id : ModuleId) :
    g.get? id = (current rs).find? (·.id == id) := by
  rw [get?, h.table_eq, find?_current]

theorem Keeps.contains_eq (h : Keeps g entry rs) (id : ModuleId) :
    g.contains id = (current rs).any (·.id == id) := by
  rw [contains, Std.HashMap.contains_eq_isSome_getElem?, h.table_eq, ← find?_current,
    Bool.eq_iff_iff, List.find?_isSome, List.any_eq_true]

theorem Keeps.records_eq (h : Keeps g entry rs) : g.records = current rs := by
  rw [records, current, h.order_eq]
  exact List.filterMap_congr fun id _ => h.table_eq id

/-- The table holds the records that count, in an order of its own. -/
theorem Keeps.toList_perm (h : Keeps g entry rs) :
    g.table.toList.Perm ((current rs).map fun r => (r.id, r)) := by
  have htable : g.table.toList.Nodup :=
    Std.HashMap.distinct_keys_toList.imp fun hkeys heq => by simp [heq] at hkeys
  have hrecords : ((current rs).map fun r => (r.id, r)).Nodup := by
    have hids : (((current rs).map fun r => (r.id, r)).map Prod.fst).Nodup := by
      rw [List.map_map]
      exact nodup_current rs
    exact hids.of_map _
  -- Neither has an entry twice, so it is enough that they have the same ones.
  rw [List.perm_ext_iff_of_nodup htable hrecords]
  rintro ⟨id, r⟩
  rw [Std.HashMap.mem_toList_iff_getElem?_eq_some, ← get?, h.get?_eq, List.mem_map]
  constructor
  · intro hfind
    have hid : r.id = id := by simpa using List.find?_some hfind
    exact ⟨r, List.mem_of_find?_eq_some hfind, by rw [hid]⟩
  · rintro ⟨other, hother, heq⟩
    obtain ⟨rfl, rfl⟩ := Prod.mk.inj heq
    exact find?_current_self hother

theorem Keeps.edgeCount_eq (h : Keeps g entry rs) : g.edgeCount = (edges (current rs)).length := by
  have hsum : g.edgeCount = (g.table.toList.map fun entry => entry.2.dependencies.length).sum := by
    rw [edgeCount, List.sum_eq_foldl, List.foldl_map]
  rw [hsum, (h.toList_perm.map _).sum_nat, edges, List.length_flatMap, List.map_map]
  simp [Function.comp_def]

/-- Without its table, the graph is the one that a build makes of the records. -/
theorem Keeps.toGraph_eq (h : Keeps g entry rs) : g.toGraph = Graph.ofRecords entry rs := by
  have hparts : Graph.ofRecords entry rs =
      ⟨(Graph.ofRecords entry rs).entry, (Graph.ofRecords entry rs).records⟩ := rfl
  rw [hparts, Graph.entry_ofRecords, Graph.records_ofRecords, toGraph, h.entry_eq, h.records_eq]

theorem Keeps.openEdges_eq (h : Keeps g entry rs) : g.openEdges =
    (edges (current rs)).filter fun e => !(current rs).any (·.id == e.target) := by
  have hgraph : g.openEdges = (Graph.mk entry (current rs)).openEdges := by
    rw [openEdges, Graph.openEdges, h.records_eq]
    refine congrArg (List.flatMap · (current rs)) (funext fun r => ?_)
    rw [openEdgesOf, Graph.openEdgesOf]
    simp only [h.contains_eq, Graph.contains]
  rw [hgraph, Graph.openEdges_eq]
  rfl

/-! ## Views -/

/-- Whether all that is asked of a graph is answered from one list: for each identifier that came
in, in the order of the first time, the record that came last. -/
structure ViewsAgree (g : IndexedGraph) (entry : ModuleId) (rs : List Record) : Prop where
  ids : g.ids = (rs.map (·.id)).eraseDups
  nodup : g.ids.Nodup
  records : g.records = current rs
  aligned : g.records.map (·.id) = g.ids
  insert : ∀ r, (g.insert r).1 = (current rs).find? (·.id == r.id)
  get? : ∀ id, g.get? id = (current rs).find? (·.id == id)
  contains : ∀ id, g.contains id = (current rs).any (·.id == id)
  size : g.size = (current rs).length
  isEmpty : g.isEmpty = (current rs).isEmpty
  edgeCount : g.edgeCount = (edges (current rs)).length
  openEdges : g.openEdges =
    (edges (current rs)).filter fun e => !(current rs).any (·.id == e.target)
  isClosed : g.isClosed = (edges (current rs)).all fun e => (current rs).any (·.id == e.target)
  toJson : g.toJson = .object
    [("entry", entry.toJson), ("modules", .list ((current rs).map Record.toJson))]
  toGraph : g.toGraph = Graph.ofRecords entry rs

theorem Keeps.viewsAgree (h : Keeps g entry rs) : ViewsAgree g entry rs where
  ids := h.order_eq
  nodup := by
    rw [ids, h.order_eq]
    exact Discovery.nodup_eraseDups _
  records := h.records_eq
  aligned := by rw [h.records_eq, Graph.ids_current, ids, h.order_eq]
  insert r := h.get?_eq r.id
  get? := h.get?_eq
  contains := h.contains_eq
  size := by rw [size, h.order_eq, ← Graph.ids_current, List.length_map]
  isEmpty := by rw [isEmpty, h.order_eq, ← Graph.ids_current, List.isEmpty_map]
  edgeCount := h.edgeCount_eq
  openEdges := h.openEdges_eq
  isClosed := by
    rw [isClosed, h.openEdges_eq, Bool.eq_iff_iff, List.isEmpty_iff, List.filter_eq_nil_iff,
      List.all_eq_true]
    simp
  toJson := by rw [toJson, h.entry_eq, h.records_eq]
  toGraph := h.toGraph_eq

/-- Whatever records are put into a graph, in whatever order and however often under one identifier,
all its views are those of the records that came last. -/
theorem viewsAgree_ofRecords (entry : ModuleId) (rs : List Record) :
    ViewsAgree (ofRecords entry rs) entry rs :=
  (keeps_ofRecords entry rs).viewsAgree

end ModuleBundler.IndexedGraph
