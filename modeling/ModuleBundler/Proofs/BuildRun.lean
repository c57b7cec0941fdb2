import ModuleBundler.Proofs.Graph

/-
  Runs of a build, without a bound on their length. `Runs` follows the loop of a build turn by turn
  and keeps the modules that were begun. `Frontier` is the invariant of the loop: what the graph,
  the queue and the modules begun so far have to do with each other. One turn preserves it
  (`Frontier.turn`), and so a run that succeeds ends with an empty queue under it
  (`Runs.frontier_of_ok`), and one that fails ends under it at the module that failed
  (`Runs.frontier_of_error`).
-/

namespace ModuleBundler.Graph

open Discovery

variable {files : Files Id} {transform : Transformer Id} {resolver : Resolver}
variable {l start target : Located} {specifiers : List String} {pairs : List (String × Located)}
variable {targets queue visited begun : List Located} {g g' : Graph} {record : Record}
variable {e : BuildError} {result : Except BuildError Graph}

/-! ## Loading one module -/

/-- The modules of all specifiers are those that the specifiers mean one by one. -/
theorem locateAll_eq_ok : locateAll files resolver l specifiers = .ok pairs ↔
    pairs.map (·.1) = specifiers ∧
      ∀ pair ∈ pairs, resolver.locateFrom files pair.1 l = .ok pair.2 := by
  induction specifiers generalizing pairs with
  | nil =>
    show Except.ok [] = Except.ok pairs ↔ _
    rw [Except.ok.injEq, List.map_eq_nil_iff]
    constructor
    · rintro rfl
      exact ⟨rfl, fun pair hpair => absurd hpair List.not_mem_nil⟩
    · exact fun h => h.1.symm
  | cons s rest ih =>
    show (match resolver.locateFrom files s l with
      | .error e => Except.error _
      | .ok target => match locateAll files resolver l rest with
        | .error e => .error e
        | .ok targets => .ok ((s, target) :: targets)) = Except.ok pairs ↔ _
    constructor
    · intro h
      split at h
      · cases h
      · next target htarget =>
        split at h
        · cases h
        · next targets htargets =>
          obtain rfl := Except.ok.inj h
          obtain ⟨hfst, hall⟩ := ih.1 htargets
          refine ⟨by rw [List.map_cons, hfst], ?_⟩
          intro pair hpair
          rcases List.mem_cons.1 hpair with rfl | hpair
          · exact htarget
          · exact hall pair hpair
    · rintro ⟨hfst, hall⟩
      match pairs with
      | [] => cases hfst
      | pair :: pairs =>
        obtain ⟨rfl, hrest⟩ := List.cons_eq_cons.1 hfst
        have hhead := hall pair List.mem_cons_self
        have htail := ih.2 ⟨hrest, fun p hp => hall p (List.mem_cons_of_mem _ hp)⟩
        rw [hhead, htail]

/-- The search for the modules of all specifiers stops at the first that means none. -/
theorem locateAll_eq_error : locateAll files resolver l specifiers = .error e ↔
    ∃ before specifier after fault, specifiers = before ++ specifier :: after ∧
      (∀ s ∈ before, ∃ target, resolver.locateFrom files s l = .ok target) ∧
      resolver.locateFrom files specifier l = .error fault ∧
      e = ⟨some l.id, some specifier, .resolve fault⟩ := by
  induction specifiers with
  | nil =>
    show Except.ok [] = Except.error e ↔ _
    simp
  | cons s rest ih =>
    show (match resolver.locateFrom files s l with
      | .error e => Except.error ⟨some l.id, some s, .resolve e⟩
      | .ok target => match locateAll files resolver l rest with
        | .error e => .error e
        | .ok targets => .ok ((s, target) :: targets)) = Except.error e ↔ _
    cases hs : resolver.locateFrom files s l with
    | error fault =>
      constructor
      · intro h
        exact ⟨[], s, rest, fault, rfl, fun x hx => absurd hx List.not_mem_nil, hs,
          (Except.error.inj h).symm⟩
      · rintro ⟨before, specifier, after, fault', hsplit, hbefore, hfault, rfl⟩
        rcases List.cons_eq_append_iff.1 hsplit with ⟨rfl, h⟩ | ⟨before', rfl, -⟩
        · obtain ⟨rfl, -⟩ := List.cons_eq_cons.1 h
          rw [Except.error.inj (hs.symm.trans hfault)]
        · obtain ⟨target, htarget⟩ := hbefore s List.mem_cons_self
          cases hs.symm.trans htarget
    | ok target =>
      have hrest : (match locateAll files resolver l rest with
          | .error e => Except.error e
          | .ok targets => .ok ((s, target) :: targets)) = Except.error e ↔
          locateAll files resolver l rest = .error e := by
        cases locateAll files resolver l rest with
        | error _ => exact Iff.rfl
        | ok _ =>
          constructor
          · intro h
            cases h
          · intro h
            cases h
      refine hrest.trans (ih.trans ⟨?_, ?_⟩)
      · rintro ⟨before, specifier, after, fault, rfl, hbefore, hfault, he⟩
        refine ⟨s :: before, specifier, after, fault, rfl, ?_, hfault, he⟩
        intro x hx
        rcases List.mem_cons.1 hx with rfl | hx
        · exact ⟨target, hs⟩
        · exact hbefore x hx
      · rintro ⟨before, specifier, after, fault, hsplit, hbefore, hfault, he⟩
        rcases List.cons_eq_append_iff.1 hsplit with ⟨rfl, h⟩ | ⟨before', rfl, hrest'⟩
        · obtain ⟨rfl, -⟩ := List.cons_eq_cons.1 h
          cases hs.symm.trans hfault
        · exact ⟨before', specifier, after, fault, hrest',
            fun x hx => hbefore x (List.mem_cons_of_mem s hx), hfault, he⟩

/-- What a module holds that was loaded: its text could be read and transformed, and its record
keeps the code and, for each specifier once, the module that it means. -/
structure LoadedAs (files : Files Id) (transform : Transformer Id) (resolver : Resolver)
    (l : Located) (source : String) (body : Script.ModuleBody) (record : Record) : Prop where
  read : files.readText l.path = .ok source
  transformed : transform source l.id = .ok body
  same_id : record.id = l.id
  code : record.code = body.code
  specifiers : record.dependencies.map (·.1) = body.specifiers.eraseDups
  located : ∀ d ∈ record.dependencies, ∃ target,
    resolver.locateFrom files d.1 l = .ok target ∧ target.id = d.2

theorem load_eq (files : Files Id) (transform : Transformer Id) (resolver : Resolver)
    (l : Located) : load files transform resolver l =
      match files.readText l.path with
      | .error e => Except.error ⟨some l.id, none, .read e⟩
      | .ok source =>
        match transform source l.id with
        | .error e => .error ⟨some l.id, none, .transform e⟩
        | .ok body =>
          match locateAll files resolver l body.specifiers.eraseDups with
          | .error e => .error e
          | .ok pairs =>
            .ok (⟨l.id, body.code, pairs.map fun t => (t.1, t.2.id)⟩, pairs.map (·.2)) :=
  rfl

theorem load_eq_ok : load files transform resolver l = .ok (record, targets) ↔
    ∃ source body pairs, files.readText l.path = .ok source ∧ transform source l.id = .ok body ∧
      locateAll files resolver l body.specifiers.eraseDups = .ok pairs ∧
      record = ⟨l.id, body.code, pairs.map fun t => (t.1, t.2.id)⟩ ∧
      targets = pairs.map (·.2) := by
  rw [load_eq]
  constructor
  · intro h
    split at h
    · cases h
    · next source hsource =>
      split at h
      · cases h
      · next body hbody =>
        split at h
        · cases h
        · next pairs hpairs =>
          obtain ⟨rfl, rfl⟩ := Prod.mk.inj (Except.ok.inj h)
          exact ⟨source, body, pairs, hsource, hbody, hpairs, rfl, rfl⟩
  · rintro ⟨source, body, pairs, hsource, hbody, hpairs, rfl, rfl⟩
    rw [hsource]
    dsimp only
    rw [hbody]
    dsimp only
    rw [hpairs]

/-- Loading fails at the first of three steps that does not succeed: reading, transforming, and
finding what the specifiers mean. -/
theorem load_eq_error : load files transform resolver l = .error e ↔
    (∃ fault, files.readText l.path = .error fault ∧ e = ⟨some l.id, none, .read fault⟩) ∨
    (∃ source fault, files.readText l.path = .ok source ∧ transform source l.id = .error fault ∧
      e = ⟨some l.id, none, .transform fault⟩) ∨
    (∃ source body, files.readText l.path = .ok source ∧ transform source l.id = .ok body ∧
      locateAll files resolver l body.specifiers.eraseDups = .error e) := by
  rw [load_eq]
  constructor
  · intro h
    split at h
    · next fault hfault => exact Or.inl ⟨fault, hfault, (Except.error.inj h).symm⟩
    · next source hsource =>
      split at h
      · next fault hfault =>
        exact Or.inr (Or.inl ⟨source, fault, hsource, hfault, (Except.error.inj h).symm⟩)
      · next body hbody =>
        split at h
        · next fault hfault =>
          obtain rfl := Except.error.inj h
          exact Or.inr (Or.inr ⟨source, body, hsource, hbody, hfault⟩)
        · cases h
  · rintro (⟨fault, hfault, rfl⟩ | ⟨source, fault, hsource, hfault, rfl⟩ |
      ⟨source, body, hsource, hbody, he⟩)
    · rw [hfault]
    · rw [hsource]
      dsimp only
      rw [hfault]
    · rw [hsource]
      dsimp only
      rw [hbody]
      dsimp only
      rw [he]

/-- The modules that a module leads to, none if it cannot be loaded. -/
def targetsOf (files : Files Id) (transform : Transformer Id) (resolver : Resolver)
    (l : Located) : List Located :=
  match load files transform resolver l with
  | .ok (_, targets) => targets
  | .error _ => []

/-- A record comes out of loading a module. -/
def Yields (files : Files Id) (transform : Transformer Id) (resolver : Resolver)
    (l : Located) (record : Record) : Prop :=
  load files transform resolver l = .ok (record, targetsOf files transform resolver l)

theorem yields_of_load (h : load files transform resolver l = .ok (record, targets)) :
    Yields files transform resolver l record ∧
      targetsOf files transform resolver l = targets := by
  have htargets : targetsOf files transform resolver l = targets := by rw [targetsOf, h]
  refine ⟨?_, htargets⟩
  rw [Yields, htargets, h]

theorem Yields.loadedAs (h : Yields files transform resolver l record) :
    ∃ source body, LoadedAs files transform resolver l source body record := by
  obtain ⟨source, body, pairs, hsource, hbody, hpairs, rfl, -⟩ := load_eq_ok.1 h
  obtain ⟨hfst, hall⟩ := locateAll_eq_ok.1 hpairs
  refine ⟨source, body, hsource, hbody, rfl, rfl, ?_, ?_⟩
  · rw [List.map_map]
    exact hfst
  · intro d hd
    obtain ⟨pair, hpair, rfl⟩ := List.mem_map.1 hd
    exact ⟨pair.2, hall pair hpair, rfl⟩

theorem Yields.id_eq (h : Yields files transform resolver l record) : record.id = l.id := by
  obtain ⟨source, body, pairs, -, -, -, rfl, -⟩ := load_eq_ok.1 h
  rfl

theorem Yields.targets_ids (h : Yields files transform resolver l record) :
    (targetsOf files transform resolver l).map (·.id) = record.dependencies.map (·.2) := by
  obtain ⟨source, body, pairs, -, -, -, rfl, htargets⟩ := load_eq_ok.1 h
  rw [htargets, List.map_map, List.map_map]
  rfl

theorem exists_locateFrom_of_mem_targetsOf (h : target ∈ targetsOf files transform resolver l) :
    ∃ specifier, resolver.locateFrom files specifier l = .ok target := by
  rw [targetsOf] at h
  split at h
  · next record targets hload =>
    obtain ⟨source, body, pairs, -, -, hpairs, -, rfl⟩ := load_eq_ok.1 hload
    obtain ⟨pair, hpair, rfl⟩ := List.mem_map.1 h
    exact ⟨pair.1, (locateAll_eq_ok.1 hpairs).2 pair hpair⟩
  · exact absurd h List.not_mem_nil

/-! ## Runs of the loop -/

/-- The loop of a build from a graph and a queue on, with the modules that it begins in order and
its result. -/
inductive Runs (files : Files Id) (transform : Transformer Id) (resolver : Resolver) :
    Graph → List Located → List Located → Except BuildError Graph → Prop where
  | done (g : Graph) : Runs files transform resolver g [] [] (.ok g)
  | failed {g : Graph} {l : Located} {queue : List Located} {e : BuildError}
      (h : load files transform resolver l = .error e) :
      Runs files transform resolver g (l :: queue) [l] (.error e)
  | turn {g : Graph} {l : Located} {queue targets begun : List Located} {record : Record}
      {result : Except BuildError Graph}
      (h : load files transform resolver l = .ok (record, targets))
      (rest : Runs files transform resolver (g.insert record)
        ((g.insert record).enqueue queue targets) begun result) :
      Runs files transform resolver g (l :: queue) (l :: begun) result

/-- What was left so far with the identifiers it leads to. -/
def rowsOfModules (files : Files Id) (transform : Transformer Id) (resolver : Resolver)
    (visited : List Located) : List (ModuleId × List ModuleId) :=
  visited.map fun l => (l.id, (targetsOf files transform resolver l).map (·.id))

/-- The state of the loop after some modules were loaded. The search has come as far as these
modules, the graph holds their records, and every module met so far lies in the file that the
first mention of its identifier means. -/
structure Frontier (files : Files Id) (transform : Transformer Id) (resolver : Resolver)
    (start : Located) (visited : List Located) (g : Graph) (queue : List Located) : Prop where
  entry : g.entry = start.id
  records : List.Forall₂ (Yields files transform resolver) visited g.records
  exploring : Exploring start.id (rowsOfModules files transform resolver visited)
    (queue.map (·.id))
  first_mention : ∀ l ∈ visited ++ queue,
    (start :: visited.flatMap (targetsOf files transform resolver)).find? (·.id == l.id) = some l

theorem rowsOfModules_fst (files : Files Id) (transform : Transformer Id) (resolver : Resolver)
    (visited : List Located) :
    (rowsOfModules files transform resolver visited).map (·.1) = visited.map (·.id) := by
  rw [rowsOfModules, List.map_map]
  rfl

theorem frontier_start (files : Files Id) (transform : Transformer Id) (resolver : Resolver)
    (start : Located) : Frontier files transform resolver start [] (empty start.id) [start] where
  entry := rfl
  records := List.Forall₂.nil
  exploring := exploring_start start.id
  first_mention l h := by
    rw [List.nil_append, List.mem_singleton] at h
    rw [h]
    exact List.find?_cons_of_pos (beq_self_eq_true start.id)

theorem ids_of_yields {records : List Record}
    (h : List.Forall₂ (Yields files transform resolver) visited records) :
    records.map (·.id) = visited.map (·.id) := by
  induction h with
  | nil => rfl
  | cons hyields _ ih => rw [List.map_cons, List.map_cons, hyields.id_eq, ih]

theorem Frontier.ids (h : Frontier files transform resolver start visited g queue) :
    g.ids = visited.map (·.id) :=
  ids_of_yields h.records

theorem Frontier.nodup (h : Frontier files transform resolver start visited g queue) :
    ((visited ++ queue).map (·.id)).Nodup := by
  have := h.exploring.nodup
  rwa [rowsOfModules_fst, ← List.map_append] at this

/-- What joins a queue is the first mention of an identifier that was not met before. -/
theorem find?_of_mem_enqueue (h : target ∈ g.enqueue queue targets) :
    target ∈ queue ∨ targets.find? (·.id == target.id) = some target ∧
      target.id ∉ g.ids ++ queue.map (·.id) := by
  induction targets generalizing queue with
  | nil => exact Or.inl h
  | cons t rest ih =>
    rw [enqueue] at h
    split at h
    · next hmet =>
      have hmet := isMet_iff.1 hmet
      rcases ih h with h | ⟨hfind, hnew⟩
      · exact Or.inl h
      · refine Or.inr ⟨?_, hnew⟩
        have hne : ¬ (t.id == target.id) = true :=
          fun heq => hnew (beq_iff_eq.1 heq ▸ hmet)
        exact (List.find?_cons_of_neg (p := fun t : Located => t.id == target.id) hne).trans hfind
    · next hnew =>
      have hnew := fun hmem => hnew (isMet_iff.2 hmem)
      rcases ih h with h | ⟨hfind, hnew'⟩
      · rcases List.mem_append.1 h with h | h
        · exact Or.inl h
        · rw [List.mem_singleton.1 h]
          exact Or.inr ⟨List.find?_cons_of_pos (beq_self_eq_true t.id), hnew⟩
      · rw [List.map_append, List.map_singleton, ← List.append_assoc, List.mem_append,
          List.mem_singleton, not_or] at hnew'
        refine Or.inr ⟨?_, hnew'.1⟩
        have hne : ¬ (t.id == target.id) = true :=
          fun heq => hnew'.2 (beq_iff_eq.1 heq).symm
        exact (List.find?_cons_of_neg (p := fun t : Located => t.id == target.id) hne).trans hfind

/-- A turn of the loop that loads a module keeps the invariant. -/
theorem Frontier.turn (h : Frontier files transform resolver start visited g (l :: queue))
    (hload : load files transform resolver l = .ok (record, targets)) :
    Frontier files transform resolver start (visited ++ [l]) (g.insert record)
      ((g.insert record).enqueue queue targets) := by
  obtain ⟨hyields, htargets⟩ := yields_of_load hload
  have hfresh : record.id ∉ g.ids := by
    have hnodup := h.nodup
    rw [List.map_append, List.map_cons] at hnodup
    rw [h.ids, hyields.id_eq]
    exact fun hmem => (List.nodup_append.1 hnodup).2.2 _ hmem _ List.mem_cons_self rfl
  have hids : (g.insert record).ids = visited.map (·.id) ++ [l.id] := by
    rw [insert_ids hfresh, h.ids, hyields.id_eq]
  refine ⟨h.entry, ?_, ?_, ?_⟩
  · rw [insert_records hfresh]
    exact List.rel_append h.records (List.Forall₂.cons hyields List.Forall₂.nil)
  · have hleave := h.exploring.leave (targets.map (·.id))
    rw [rowsOfModules_fst] at hleave
    rw [enqueue_ids, hids, List.append_assoc, List.singleton_append, rowsOfModules,
      List.map_append, List.map_singleton, htargets]
    exact hleave
  · intro t ht
    rw [List.flatMap_append, List.flatMap_singleton, htargets, ← List.cons_append,
      List.find?_append]
    have hold : ∀ t ∈ visited ++ l :: queue,
        ((start :: visited.flatMap (targetsOf files transform resolver)).find?
          (·.id == t.id)).or (targets.find? (·.id == t.id)) = some t := by
      intro t ht
      rw [h.first_mention t ht, Option.some_or]
    rcases List.mem_append.1 ht with ht | ht
    · apply hold t
      rw [List.mem_append, List.mem_singleton] at ht
      rw [List.mem_append, List.mem_cons]
      exact ht.imp_right Or.inl
    · rcases find?_of_mem_enqueue ht with ht | ⟨hfind, hnew⟩
      · exact hold t (List.mem_append_right _ (List.mem_cons_of_mem _ ht))
      · -- Nothing mentioned before has this identifier, or it would be among those met.
        have hnone : (start :: visited.flatMap (targetsOf files transform resolver)).find?
            (·.id == t.id) = none := by
          rw [List.find?_eq_none]
          intro t' ht' hsame
          have hknown :
              t'.id ∈ known start.id (rowsOfModules files transform resolver visited) := by
            rw [mem_known]
            rcases List.mem_cons.1 ht' with rfl | ht'
            · exact Or.inl rfl
            · obtain ⟨m, hm, ht'⟩ := List.mem_flatMap.1 ht'
              exact Or.inr (List.mem_flatMap.2
                ⟨_, List.mem_map_of_mem hm, List.mem_map_of_mem ht'⟩)
          rw [← h.exploring.known_eq, rowsOfModules_fst] at hknown
          rw [hids, List.append_assoc, List.singleton_append, ← beq_iff_eq.1 hsame] at hnew
          exact hnew hknown
        rw [hnone, Option.none_or, hfind]

/-- A run that succeeds ends under the invariant, with nothing left in the queue. -/
theorem Runs.frontier_of_ok (run : Runs files transform resolver g queue begun (.ok g'))
    (h : Frontier files transform resolver start visited g queue) :
    Frontier files transform resolver start (visited ++ begun) g' [] := by
  generalize hresult : Except.ok g' = result at run
  induction run generalizing visited with
  | done g =>
    obtain rfl := Except.ok.inj hresult
    rwa [List.append_nil]
  | failed _ => cases hresult
  | turn hload _ ih =>
    have := ih (h.turn hload) hresult
    rwa [List.append_assoc, List.singleton_append] at this

/-- A run that fails ends under the invariant, and the module that is next cannot be loaded. -/
theorem Runs.frontier_of_error (run : Runs files transform resolver g queue begun (.error e))
    (h : Frontier files transform resolver start visited g queue) :
    ∃ before l rest g', begun = before ++ [l] ∧
      Frontier files transform resolver start (visited ++ before) g' (l :: rest) ∧
      load files transform resolver l = .error e := by
  generalize hresult : Except.error e = result at run
  induction run generalizing visited with
  | done => cases hresult
  | @failed g l queue e' hload =>
    obtain rfl := Except.error.inj hresult
    refine ⟨[], l, queue, g, rfl, ?_, hload⟩
    rwa [List.append_nil]
  | @turn g l queue targets begun record result hload _ ih =>
    obtain ⟨before, l', rest, g', rfl, hfrontier, herror⟩ := ih (h.turn hload) hresult
    rw [List.append_assoc, List.singleton_append] at hfrontier
    exact ⟨l :: before, l', rest, g', rfl, hfrontier, herror⟩

/-- A run is settled by where it starts. -/
theorem Runs.unique {begun' : List Located} {result' : Except BuildError Graph}
    (run : Runs files transform resolver g queue begun result)
    (run' : Runs files transform resolver g queue begun' result') :
    begun = begun' ∧ result = result' := by
  induction run generalizing begun' result' with
  | done g =>
    cases run'
    exact ⟨rfl, rfl⟩
  | failed hload =>
    cases run' with
    | failed hload' =>
      obtain rfl := Except.error.inj (hload.symm.trans hload')
      exact ⟨rfl, rfl⟩
    | turn hload' _ => cases hload.symm.trans hload'
  | turn hload _ ih =>
    cases run' with
    | failed hload' => cases hload.symm.trans hload'
    | turn hload' rest' =>
      obtain ⟨rfl, rfl⟩ := Prod.mk.inj (Except.ok.inj (hload.symm.trans hload'))
      obtain ⟨rfl, rfl⟩ := ih rest'
      exact ⟨rfl, rfl⟩

end ModuleBundler.Graph
