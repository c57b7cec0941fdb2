import Mathlib.Data.List.Induction
import ModuleBundler.Bundle.Assemble
import ModuleBundler.Proofs.DiscoveredGraph
import ModuleBundler.Proofs.Ensures

/-
  When a graph makes a bundle. A graph that records are put into holds, for each identifier in the
  order in which they came first, the record that came last (`records_ofRecords`). Assembling it
  fails where there is none for the entry, else at the first dependency on an identifier without
  a record. A build goes on as long as a dependency has no record (`Pending`), whatever it reads and
  however it transforms, so that its graph is always assembled (`assemble_outcome`).
-/

namespace ModuleBundler.Graph

variable {entry id : ModuleId} {rs records : List Record} {r : Record} {g : Graph}
  {settings : OutputSettings} {edge : OpenEdge}

/-! ## Graphs of records -/

/-- The graph into which records were put one after the other. -/
def ofRecords (entry : ModuleId) (rs : List Record) : Graph := rs.foldl insert (empty entry)

/-- The records that count when some were put in: for each identifier, in the order in which they
came first, the record that came last. -/
def current (rs : List Record) : List Record :=
  (rs.map (·.id)).eraseDups.filterMap fun id => rs.reverse.find? (·.id == id)

theorem ofRecords_concat (entry : ModuleId) (rs : List Record) (r : Record) :
    ofRecords entry (rs ++ [r]) = (ofRecords entry rs).insert r := by
  rw [ofRecords, List.foldl_append]
  rfl

theorem entry_ofRecords (entry : ModuleId) (rs : List Record) :
    (ofRecords entry rs).entry = entry := by
  induction rs using List.reverseRecOn with
  | nil => rfl
  | append_singleton rs r ih =>
    rw [ofRecords_concat]
    exact ih

/-- An identifier that came in has a last record. -/
theorem exists_last (h : id ∈ rs.map (·.id)) :
    ∃ last, rs.reverse.find? (·.id == id) = some last ∧ last.id = id := by
  obtain ⟨r, hr, hid⟩ := List.mem_map.1 h
  have hsome : (rs.reverse.find? (·.id == id)).isSome := by
    rw [List.find?_isSome]
    exact ⟨r, List.mem_reverse.2 hr, beq_iff_eq.2 hid⟩
  obtain ⟨last, hlast⟩ := Option.isSome_iff_exists.1 hsome
  exact ⟨last, hlast, beq_iff_eq.1 (List.find?_some (p := fun r : Record => r.id == id) hlast)⟩

theorem ids_current (rs : List Record) :
    (current rs).map (·.id) = (rs.map (·.id)).eraseDups := by
  rw [current, List.map_filterMap]
  have hsome : ∀ id ∈ (rs.map (·.id)).eraseDups,
      (rs.reverse.find? (·.id == id)).map (·.id) = some id := by
    intro id hid
    obtain ⟨last, hlast, hsame⟩ := exists_last (List.mem_eraseDups.1 hid)
    rw [hlast, Option.map_some, hsame]
  rw [List.filterMap_congr hsome, List.filterMap_some]

/-- A record takes the place of the one with its identifier. -/
theorem insertRecord_of_mem (hnodup : (records.map (·.id)).Nodup)
    (h : r.id ∈ records.map (·.id)) :
    insertRecord r records = records.map fun old => if old.id = r.id then r else old := by
  induction records with
  | nil => exact absurd h List.not_mem_nil
  | cons old rest ih =>
    rw [List.map_cons, List.nodup_cons] at hnodup
    rw [insertRecord, List.map_cons]
    by_cases hold : old.id = r.id
    · have hrest : rest.map (fun old => if old.id = r.id then r else old) = rest := by
        conv => rhs; rw [← List.map_id rest]
        refine List.map_congr_left fun other hother => if_neg fun hsame => ?_
        exact hnodup.1 (hold ▸ hsame ▸ List.mem_map_of_mem hother)
      rw [if_pos (beq_iff_eq.2 hold), if_pos hold, hrest]
    · rw [List.map_cons, List.mem_cons] at h
      rw [if_neg fun hsame => hold (beq_iff_eq.1 hsame), if_neg hold,
        ih hnodup.2 (h.resolve_left fun hsame => hold hsame.symm)]

/-- The last record of an identifier, when one more comes in. -/
theorem find?_reverse_concat (rs : List Record) (r : Record) (id : ModuleId) :
    (rs ++ [r]).reverse.find? (·.id == id) =
      if r.id = id then some r else rs.reverse.find? (·.id == id) := by
  rw [List.reverse_append, List.reverse_singleton, List.singleton_append]
  by_cases hid : r.id = id
  · rw [if_pos hid]
    exact List.find?_cons_of_pos (beq_iff_eq.2 hid)
  · rw [if_neg hid]
    exact List.find?_cons_of_neg fun h => hid (beq_iff_eq.1 h)

/-- One more record that came in takes the place of the last one with its identifier, or stands at
the end. -/
theorem current_concat (rs : List Record) (r : Record) :
    current (rs ++ [r]) = insertRecord r (current rs) := by
  have hcurrent : current (rs ++ [r]) =
      ((rs.map (·.id)).eraseDups.filterMap fun id =>
          if r.id = id then some r else rs.reverse.find? (·.id == id)) ++
        (([r.id].removeAll (rs.map (·.id))).eraseDups.filterMap fun id =>
          if r.id = id then some r else rs.reverse.find? (·.id == id)) := by
    rw [current, List.map_append, List.map_singleton, List.eraseDups_append,
      List.filterMap_append]
    simp only [find?_reverse_concat]
  have hids : r.id ∈ (current rs).map (·.id) ↔ r.id ∈ rs.map (·.id) := by
    rw [ids_current, List.mem_eraseDups]
  by_cases hmem : r.id ∈ rs.map (·.id)
  · have hnodup : ((current rs).map (·.id)).Nodup := by
      rw [ids_current]
      exact Discovery.nodup_eraseDups _
    have hnone : [r.id].removeAll (rs.map (·.id)) = [] := by
      rw [List.cons_removeAll, List.contains_iff_mem.2 hmem]
      rfl
    have hreplaced : ∀ id ∈ (rs.map (·.id)).eraseDups,
        (if r.id = id then some r else rs.reverse.find? (·.id == id)) =
          (rs.reverse.find? (·.id == id)).map fun old => if old.id = r.id then r else old := by
      intro id hid
      obtain ⟨last, hlast, hsame⟩ := exists_last (List.mem_eraseDups.1 hid)
      rw [hlast, Option.map_some, hsame]
      by_cases hr : r.id = id
      · rw [if_pos hr, if_pos hr.symm]
      · rw [if_neg hr, if_neg (Ne.symm hr)]
    rw [hcurrent, insertRecord_of_mem hnodup (hids.2 hmem), hnone,
      List.filterMap_congr hreplaced, ← List.map_filterMap]
    exact List.append_nil _
  · have hone : [r.id].removeAll (rs.map (·.id)) = [r.id] := by
      rw [List.cons_removeAll, Bool.eq_false_iff.2 (mt List.contains_iff_mem.1 hmem)]
      rfl
    have hkept : ∀ id ∈ (rs.map (·.id)).eraseDups,
        (if r.id = id then some r else rs.reverse.find? (·.id == id)) =
          rs.reverse.find? (·.id == id) := by
      intro id hid
      refine if_neg fun hr => ?_
      rw [List.mem_eraseDups, ← hr] at hid
      exact hmem hid
    rw [hcurrent, insertRecord_of_notMem (mt hids.1 hmem), hone, List.filterMap_congr hkept,
      ← current]
    simp [List.eraseDups_cons]

/-- A graph holds the last record of each identifier, in the order of the first ones. -/
theorem records_ofRecords (entry : ModuleId) (rs : List Record) :
    (ofRecords entry rs).records = current rs := by
  induction rs using List.reverseRecOn with
  | nil => rfl
  | append_singleton rs r ih =>
    rw [ofRecords_concat, current_concat, ← ih]
    rfl

theorem mem_ids_ofRecords : id ∈ (ofRecords entry rs).ids ↔ id ∈ rs.map (·.id) := by
  rw [ids, records_ofRecords, ids_current, List.mem_eraseDups]

theorem mem_of_mem_current (h : r ∈ current rs) : r ∈ rs := by
  obtain ⟨id, -, hlast⟩ := List.mem_filterMap.1 h
  exact List.mem_reverse.1 (List.mem_of_find?_eq_some hlast)

/-! ## Assembling -/

/-- All dependencies of records, in order. -/
def edges (records : List Record) : List OpenEdge :=
  records.flatMap fun r => r.dependencies.map fun d => ⟨r.id, d.1, d.2⟩

/-- Whether a dependency is the first one, of the records that count, on an identifier without a
record. -/
def IsFirstOpen (rs : List Record) (edge : OpenEdge) : Prop :=
  ∃ before after, edges (current rs) = before ++ edge :: after ∧
    (∀ e ∈ before, e.target ∈ rs.map (·.id)) ∧ edge.target ∉ rs.map (·.id)

theorem openEdges_eq (g : Graph) :
    g.openEdges = (edges g.records).filter fun e => !g.contains e.target := by
  rw [openEdges, edges, List.filter_flatMap]
  refine congrArg (List.flatMap · g.records) (funext fun r => ?_)
  rw [openEdgesOf, List.filter_map]
  rfl

theorem openEdges_ofRecords (entry : ModuleId) (rs : List Record) :
    (ofRecords entry rs).openEdges =
      (edges (current rs)).filter fun e => e.target ∉ rs.map (·.id) := by
  rw [openEdges_eq, records_ofRecords]
  refine List.filter_congr fun e _ => ?_
  rw [Bool.eq_iff_iff, Bool.not_eq_true', ← Bool.not_eq_true, contains_iff, mem_ids_ofRecords,
    decide_eq_true_iff]

theorem isFirstOpen_iff :
    IsFirstOpen rs edge ↔ ∃ rest, (ofRecords entry rs).openEdges = edge :: rest := by
  simp only [openEdges_ofRecords, List.filter_eq_cons_iff, IsFirstOpen, decide_eq_true_iff,
    not_not]
  constructor
  · intro ⟨before, after, hsplit, hbefore, hedge⟩
    exact ⟨_, before, after, hsplit, hbefore, hedge, rfl⟩
  · intro ⟨_, before, after, hsplit, hbefore, hedge, _⟩
    exact ⟨before, after, hsplit, hbefore, hedge⟩

/-- Either some dependency is the first one without a record, or all of them have one. -/
theorem firstOpen_or_closed (rs : List Record) :
    (∃ edge, IsFirstOpen rs edge) ∨ ∀ e ∈ edges (current rs), e.target ∈ rs.map (·.id) := by
  match hopen : (ofRecords default rs).openEdges with
  | edge :: rest => exact Or.inl ⟨edge, isFirstOpen_iff.2 ⟨rest, hopen⟩⟩
  | [] =>
    rw [openEdges_ofRecords, List.filter_eq_nil_iff] at hopen
    refine Or.inr fun e he => ?_
    have hmem := hopen e he
    rwa [decide_eq_true_iff, not_not] at hmem

theorem contains_ofRecords : (ofRecords entry rs).contains id = true ↔ id ∈ rs.map (·.id) :=
  contains_iff.trans mem_ids_ofRecords

theorem assemble_missing (h : entry ∉ rs.map (·.id)) (settings : OutputSettings) :
    assemble (ofRecords entry rs) settings = .error (.missingEntry entry) := by
  have hcontains : (!(ofRecords entry rs).contains entry) = true := by
    rw [Bool.not_eq_true', ← Bool.not_eq_true, contains_ofRecords]
    exact h
  rw [assemble, entry_ofRecords, if_pos hcontains]

theorem assemble_present (h : entry ∈ rs.map (·.id)) (settings : OutputSettings) :
    assemble (ofRecords entry rs) settings =
      match (ofRecords entry rs).openEdges with
      | edge :: _ => .error (.openGraph edge)
      | [] => .ok (bundleText (ofRecords entry rs) settings) := by
  rw [assemble, entry_ofRecords, contains_ofRecords.2 h]
  rfl

theorem assemble_open (h : entry ∈ rs.map (·.id)) (hedge : IsFirstOpen rs edge)
    (settings : OutputSettings) :
    assemble (ofRecords entry rs) settings = .error (.openGraph edge) := by
  obtain ⟨rest, hopen⟩ := isFirstOpen_iff.1 hedge
  rw [assemble_present h, hopen]

theorem assemble_closed (h : entry ∈ rs.map (·.id))
    (hclosed : ∀ e ∈ edges (current rs), e.target ∈ rs.map (·.id)) (settings : OutputSettings) :
    assemble (ofRecords entry rs) settings = .ok (bundleText (ofRecords entry rs) settings) := by
  have hopen : (ofRecords entry rs).openEdges = [] := by
    rw [openEdges_ofRecords, List.filter_eq_nil_iff]
    intro e he hnot
    exact of_decide_eq_true hnot (hclosed e he)
  rw [assemble_present h, hopen]

/-- Assembling has one of three outcomes. -/
theorem assemble_cases (entry : ModuleId) (rs : List Record) (settings : OutputSettings) :
    (entry ∉ rs.map (·.id) ∧
      assemble (ofRecords entry rs) settings = .error (.missingEntry entry)) ∨
    (entry ∈ rs.map (·.id) ∧ ∃ edge, IsFirstOpen rs edge ∧
      assemble (ofRecords entry rs) settings = .error (.openGraph edge)) ∨
    (entry ∈ rs.map (·.id) ∧ (∀ e ∈ edges (current rs), e.target ∈ rs.map (·.id)) ∧
      assemble (ofRecords entry rs) settings = .ok (bundleText (ofRecords entry rs) settings)) := by
  by_cases hentry : entry ∈ rs.map (·.id)
  · rcases firstOpen_or_closed rs with ⟨edge, hedge⟩ | hclosed
    · exact Or.inr (Or.inl ⟨hentry, edge, hedge, assemble_open hentry hedge settings⟩)
    · exact Or.inr (Or.inr ⟨hentry, hclosed, assemble_closed hentry hclosed settings⟩)
  · exact Or.inl ⟨hentry, assemble_missing hentry settings⟩

theorem assemble_eq_missing_iff :
    assemble (ofRecords entry rs) settings = .error (.missingEntry id) ↔
      id = entry ∧ entry ∉ rs.map (·.id) := by
  constructor
  · intro h
    rcases assemble_cases entry rs settings with ⟨hentry, heq⟩ | ⟨-, _, -, heq⟩ | ⟨-, -, heq⟩
    · cases heq.symm.trans h
      exact ⟨rfl, hentry⟩
    · cases heq.symm.trans h
    · cases heq.symm.trans h
  · intro ⟨hid, hentry⟩
    rw [hid]
    exact assemble_missing hentry settings

theorem assemble_eq_open_iff :
    assemble (ofRecords entry rs) settings = .error (.openGraph edge) ↔
      entry ∈ rs.map (·.id) ∧ IsFirstOpen rs edge := by
  constructor
  · intro h
    rcases assemble_cases entry rs settings with ⟨-, heq⟩ | ⟨hentry, _, hedge, heq⟩ | ⟨-, -, heq⟩
    · cases heq.symm.trans h
    · cases heq.symm.trans h
      exact ⟨hentry, hedge⟩
    · cases heq.symm.trans h
  · intro ⟨hentry, hedge⟩
    exact assemble_open hentry hedge settings

theorem assemble_eq_ok_iff {text : String} :
    assemble (ofRecords entry rs) settings = .ok text ↔
      entry ∈ rs.map (·.id) ∧ (∀ e ∈ edges (current rs), e.target ∈ rs.map (·.id)) ∧
        text = bundleText (ofRecords entry rs) settings := by
  constructor
  · intro h
    rcases assemble_cases entry rs settings with
      ⟨-, heq⟩ | ⟨-, _, -, heq⟩ | ⟨hentry, hclosed, heq⟩
    · cases heq.symm.trans h
    · cases heq.symm.trans h
    · exact ⟨hentry, hclosed, (Except.ok.inj (heq.symm.trans h)).symm⟩
  · intro ⟨hentry, hclosed, htext⟩
    rw [htext]
    exact assemble_closed hentry hclosed settings

/-! ## Building -/

variable {σ : Type} {modules : List Located} {module : Located}

/-- What holds of a build that has put in some records and has modules left to load: the entry and
every dependency have come in or are going to. -/
structure Pending (entry : ModuleId) (rs : List Record) (queue : List Located) : Prop where
  entry_met : entry ∈ rs.map (·.id) ++ queue.map (·.id)
  targets_met : ∀ r ∈ rs, ∀ d ∈ r.dependencies, d.2 ∈ rs.map (·.id) ++ queue.map (·.id)

theorem pending_start (start : Located) : Pending start.id [] [start] where
  entry_met := List.mem_singleton_self start.id
  targets_met _ hr := absurd hr List.not_mem_nil

/-- Whatever was in the graph or in the queue, or is a target, is in one of them after the targets
were queued. -/
theorem mem_met_enqueue (id : ModuleId) (g : Graph) (queue targets : List Located) :
    id ∈ g.ids ++ (g.enqueue queue targets).map (·.id) ↔
      id ∈ g.ids ++ queue.map (·.id) ∨ id ∈ targets.map (·.id) := by
  rw [enqueue_ids, ← List.append_assoc, List.mem_append, List.mem_eraseDups, List.removeAll,
    List.mem_filter, Bool.not_eq_true', ← Bool.not_eq_true, List.elem_iff]
  by_cases hmet : id ∈ g.ids ++ queue.map (·.id)
  · exact iff_of_true (Or.inl hmet) (Or.inl hmet)
  · rw [or_iff_right hmet, or_iff_right hmet, and_iff_left hmet]

theorem Pending.load {queue targets : List Located} (h : Pending entry rs (module :: queue))
    (hid : r.id = module.id) (htargets : r.dependencies.map (·.2) = targets.map (·.id)) :
    Pending entry (rs ++ [r]) ((ofRecords entry (rs ++ [r])).enqueue queue targets) := by
  have hmet : ∀ id, id ∈ (rs ++ [r]).map (·.id) ++
      ((ofRecords entry (rs ++ [r])).enqueue queue targets).map (·.id) ↔
      id ∈ rs.map (·.id) ++ (module :: queue).map (·.id) ∨ id ∈ targets.map (·.id) := by
    intro id
    have henqueue := mem_met_enqueue id (ofRecords entry (rs ++ [r])) queue targets
    rw [List.mem_append, mem_ids_ofRecords, List.mem_append, mem_ids_ofRecords] at henqueue
    rw [List.mem_append, henqueue, List.map_append, List.map_singleton, hid, List.map_cons,
      ← List.mem_append, List.append_assoc, List.singleton_append]
  refine ⟨(hmet entry).2 (Or.inl h.entry_met), fun r' hr' d hd => ?_⟩
  rw [hmet]
  rcases List.mem_append.1 hr' with hold | hnew
  · exact Or.inl (h.targets_met r' hold d hd)
  · obtain rfl := List.mem_singleton.1 hnew
    rw [← htargets]
    exact Or.inr (List.mem_map_of_mem hd)

variable (files : Files (StateM σ)) (transform : Transformer (StateM σ)) (resolver : Resolver)

/-- A build that has no modules left to load has put in all its records. -/
theorem Pending.ensures_done (h : Pending entry rs []) :
    Ensures (pure (.ok (ofRecords entry rs)) : StateM σ (Except BuildError Graph)) fun result =>
      ∀ g, result = .ok g → ∃ rs', g = ofRecords entry rs' ∧ Pending entry rs' [] := by
  refine ensures_pure fun g hg => ?_
  obtain rfl := Except.ok.inj hg
  exact ⟨rs, rfl, h⟩

/-- A build puts in records until there is one for every module that it met. -/
theorem ensures_loadAll (limit n : Nat) {queue : List Located} (h : Pending entry rs queue) :
    Ensures (loadAll files transform resolver limit n (ofRecords entry rs) queue) fun result =>
      ∀ g, result = .ok g → ∃ rs', g = ofRecords entry rs' ∧ Pending entry rs' [] := by
  induction n generalizing rs queue with
  | zero =>
    cases queue with
    | nil => exact h.ensures_done
    | cons module queue => exact ensures_error _
  | succ n ih =>
    cases queue with
    | nil => exact h.ensures_done
    | cons module queue =>
      refine (ensures_load files transform resolver module).bind fun result hresult => ?_
      cases result with
      | error e => exact ensures_error _
      | ok loaded =>
        obtain ⟨hid, htargets⟩ := hresult loaded rfl
        have hnext := ih (h.load hid htargets)
        rw [ofRecords_concat] at hnext
        exact hnext

/-- A graph without modules left to load makes a bundle. -/
theorem Pending.assemble_eq (h : Pending entry rs []) (settings : OutputSettings) :
    assemble (ofRecords entry rs) settings = .ok (bundleText (ofRecords entry rs) settings) := by
  obtain ⟨hentry, htargets⟩ := h
  rw [List.map_nil, List.append_nil] at hentry
  refine assemble_closed hentry (fun e he => ?_) settings
  obtain ⟨r, hr, he⟩ := List.mem_flatMap.1 he
  obtain ⟨d, hd, rfl⟩ := List.mem_map.1 he
  have hmet := htargets r (mem_of_mem_current hr) d hd
  rwa [List.map_nil, List.append_nil] at hmet

theorem ensures_buildFrom (start : Located) (settings : OutputSettings) :
    Ensures (buildFrom files transform resolver start) fun result =>
      ∀ g, result = .ok g → assemble g settings = .ok (bundleText g settings) := by
  refine Ensures.after _ fun capacity st g hg => ?_
  obtain ⟨rs, rfl, hdone⟩ := ensures_loadAll files transform resolver _ _ (pending_start start) st
    g hg
  exact hdone.assemble_eq settings

theorem ensures_buildEntry (path : String) (settings : OutputSettings) :
    Ensures (buildEntry files transform resolver path) fun result =>
      ∀ g, result = .ok g → assemble g settings = .ok (bundleText g settings) := by
  refine Ensures.after _ fun found => ?_
  match found with
  | .error e => exact ensures_error _
  | .ok start => exact ensures_buildFrom files transform resolver start settings

/-- Assembling a graph of records fails for want of the entry exactly if no record was put in for
it, else at a dependency exactly if that is the first one without a record, and gives the bundle
otherwise. So it gives the bundle of every graph that is built, whatever the files are and however
they are transformed. -/
theorem assemble_outcome (entry : ModuleId) (rs : List Record) (settings : OutputSettings)
    (path : String) (st : σ) :
    (∀ id, assemble (ofRecords entry rs) settings = .error (.missingEntry id) ↔
      id = entry ∧ entry ∉ rs.map (·.id)) ∧
    (∀ edge, assemble (ofRecords entry rs) settings = .error (.openGraph edge) ↔
      entry ∈ rs.map (·.id) ∧ IsFirstOpen rs edge) ∧
    (∀ text, assemble (ofRecords entry rs) settings = .ok text ↔
      entry ∈ rs.map (·.id) ∧ (∀ e ∈ edges (current rs), e.target ∈ rs.map (·.id)) ∧
        text = bundleText (ofRecords entry rs) settings) ∧
    (∀ g, (build files transform resolver entry st).1 = .ok g →
      assemble g settings = .ok (bundleText g settings)) ∧
    ∀ g, (buildEntry files transform resolver path st).1 = .ok g →
      assemble g settings = .ok (bundleText g settings) :=
  ⟨fun _ => assemble_eq_missing_iff, fun _ => assemble_eq_open_iff, fun _ => assemble_eq_ok_iff,
    ensures_buildFrom files transform resolver (resolver.locatedOf entry) settings st,
    ensures_buildEntry files transform resolver path settings st⟩

/-! ## A record that is put in twice -/

/-- A module that first leads to a missing module, and after it was put in again to one that is
there. -/
def replacedRecords : List Record :=
  [⟨⟨"./m.js"⟩, "", [("./gone", ⟨"./gone.js"⟩)]⟩,
   ⟨⟨"./a.js"⟩, "", [("./m", ⟨"./m.js"⟩), ("./lost", ⟨"./lost.js"⟩)]⟩,
   ⟨⟨"./m.js"⟩, "", [("./a", ⟨"./a.js"⟩)]⟩]

/-- What the replaced record led to is not missed, and a build of two modules that lead to each
other is assembled. -/
theorem assemble_outcome_replacedRecords :
    assemble (ofRecords ⟨"./m.js"⟩ replacedRecords) {} =
      .error (.openGraph ⟨⟨"./a.js"⟩, "./lost", ⟨"./lost.js"⟩⟩) ∧
    (buildEntry Store.fileSystem.toFiles scriptTransformer pairResolver "m.js" pairStore).1 =
      .ok pairGraph ∧
    assemble pairGraph {} = .ok (bundleText pairGraph {}) := by
  obtain ⟨-, hopen, -, -, hbuilt⟩ := assemble_outcome Store.fileSystem.toFiles scriptTransformer
    pairResolver ⟨"./m.js"⟩ replacedRecords {} "m.js" pairStore
  have hbuild : (buildEntry Store.fileSystem.toFiles scriptTransformer pairResolver "m.js"
      pairStore).1 = .ok pairGraph := by
    decide +kernel
  have hfirst : IsFirstOpen replacedRecords ⟨⟨"./a.js"⟩, "./lost", ⟨"./lost.js"⟩⟩ :=
    ⟨[⟨⟨"./m.js"⟩, "./a", ⟨"./a.js"⟩⟩, ⟨⟨"./a.js"⟩, "./m", ⟨"./m.js"⟩⟩], [], by decide, by decide,
      by decide⟩
  exact ⟨(hopen _).2 ⟨by decide, hfirst⟩, hbuild, hbuilt pairGraph hbuild⟩

end ModuleBundler.Graph
