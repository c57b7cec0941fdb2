import ModuleBundler.Proofs.DiscoveredGraph

/-
  When a build succeeds, and with which error it fails. `Required` is the least set of modules
  that holds the entry and what its members depend on that can be loaded. Where case counts, an
  identifier settles the file of its module, and so `Required` and the order of discovery are about
  identifiers alone. A build then succeeds exactly if every required module can be loaded, and
  otherwise fails with the error of the first in the order of discovery that cannot
  (`buildEntry_outcome`).
-/

namespace ModuleBundler.Graph

open Discovery

variable {files : Files Id} {s : Store} {transform : Transformer Id} {resolver : Resolver}
variable {start l : Located} {entry : String} {e : BuildError} {id : ModuleId}

/-! ## Modules that can be loaded and those that cannot -/

/-- Whether a module can be read and transformed, and all its specifiers mean modules. -/
def Loadable (files : Files Id) (transform : Transformer Id) (resolver : Resolver)
    (l : Located) : Prop :=
  ∃ source body, files.readText l.path = .ok source ∧ transform source l.id = .ok body ∧
    ∀ specifier ∈ body.specifiers, ∃ target, resolver.locateFrom files specifier l = .ok target

/-- The error of a module that cannot be loaded: that of the first step that fails, and among its
specifiers that of the first that means no module. -/
inductive FailsWith (files : Files Id) (transform : Transformer Id) (resolver : Resolver)
    (l : Located) : BuildError → Prop where
  | read {fault : FileError} (h : files.readText l.path = .error fault) :
      FailsWith files transform resolver l ⟨some l.id, none, .read fault⟩
  | transform {source : String} {fault : TransformError}
      (hread : files.readText l.path = .ok source)
      (h : transform source l.id = .error fault) :
      FailsWith files transform resolver l ⟨some l.id, none, .transform fault⟩
  | resolve {source specifier : String} {body : Script.ModuleBody} {before after : List String}
      {fault : ResolveError} (hread : files.readText l.path = .ok source)
      (hbody : transform source l.id = .ok body)
      (hsplit : body.specifiers = before ++ specifier :: after)
      (hbefore : ∀ s ∈ before, ∃ target, resolver.locateFrom files s l = .ok target)
      (h : resolver.locateFrom files specifier l = .error fault) :
      FailsWith files transform resolver l ⟨some l.id, some specifier, .resolve fault⟩

theorem find?_eraseDups (p : String → Bool) (l : List String) :
    l.eraseDups.find? p = l.find? p := by
  match l with
  | [] => simp
  | a :: l =>
    rw [List.eraseDups_cons, List.find?_cons, List.find?_cons]
    cases ha : p a with
    | true => rfl
    | false =>
      dsimp only
      rw [find?_eraseDups p, List.find?_filter]
      -- What was struck out does not satisfy the test.
      refine congrArg (List.find? · l) (funext fun b => ?_)
      cases hb : p b with
      | true =>
        have hne : b ≠ a := fun h => by rw [h, ha] at hb; cases hb
        simpa using hne
      | false => simp
termination_by l.length
decreasing_by exact Nat.lt_succ_of_le (List.length_filter_le _ _)

/-- Whether a specifier means no module. -/
def isOpen (files : Files Id) (resolver : Resolver) (l : Located) (specifier : String) : Bool :=
  match resolver.locateFrom files specifier l with
  | .ok _ => false
  | .error _ => true

theorem isOpen_eq_false {specifier : String} : isOpen files resolver l specifier = false ↔
    ∃ target, resolver.locateFrom files specifier l = .ok target := by
  rw [isOpen]
  cases h : resolver.locateFrom files specifier l with
  | ok target => exact ⟨fun _ => ⟨target, rfl⟩, fun _ => rfl⟩
  | error fault =>
    constructor
    · intro h
      cases h
    · rintro ⟨target, h⟩
      cases h

theorem exists_first_open_iff {specifiers : List String} {specifier : String}
    {fault : ResolveError} :
    (∃ before after, specifiers = before ++ specifier :: after ∧
      (∀ s ∈ before, ∃ target, resolver.locateFrom files s l = .ok target) ∧
      resolver.locateFrom files specifier l = .error fault) ↔
    specifiers.find? (isOpen files resolver l) = some specifier ∧
      resolver.locateFrom files specifier l = .error fault := by
  rw [List.find?_eq_some_iff_append]
  constructor
  · rintro ⟨before, after, hsplit, hbefore, hfault⟩
    refine ⟨⟨by rw [isOpen, hfault], before, after, hsplit, fun s hs => ?_⟩, hfault⟩
    rw [isOpen_eq_false.2 (hbefore s hs)]
    rfl
  · rintro ⟨⟨-, before, after, hsplit, hbefore⟩, hfault⟩
    refine ⟨before, after, hsplit, fun s hs => ?_, hfault⟩
    exact isOpen_eq_false.1 (by simpa using hbefore s hs)

theorem loadable_iff : Loadable files transform resolver l ↔
    ∃ record targets, load files transform resolver l = .ok (record, targets) := by
  constructor
  · rintro ⟨source, body, hsource, hbody, hall⟩
    cases hload : load files transform resolver l with
    | ok loaded => exact ⟨loaded.1, loaded.2, rfl⟩
    | error e =>
      rcases load_eq_error.1 hload with ⟨fault, hfault, -⟩ | ⟨source', fault, hsource', hfault, -⟩ |
        ⟨source', body', hsource', hbody', herror⟩
      · cases hsource.symm.trans hfault
      · obtain rfl := Except.ok.inj (hsource.symm.trans hsource')
        cases hbody.symm.trans hfault
      · obtain rfl := Except.ok.inj (hsource.symm.trans hsource')
        obtain rfl := Except.ok.inj (hbody.symm.trans hbody')
        obtain ⟨before, specifier, after, fault, hsplit, -, hfault, -⟩ :=
          locateAll_eq_error.1 herror
        have hmem : specifier ∈ body.specifiers := by
          rw [← List.mem_eraseDups, hsplit]
          exact List.mem_append_right _ List.mem_cons_self
        obtain ⟨target, htarget⟩ := hall specifier hmem
        cases htarget.symm.trans hfault
  · rintro ⟨record, targets, hload⟩
    obtain ⟨source, body, pairs, hsource, hbody, hpairs, -, -⟩ := load_eq_ok.1 hload
    obtain ⟨hfst, hall⟩ := locateAll_eq_ok.1 hpairs
    refine ⟨source, body, hsource, hbody, fun specifier hspecifier => ?_⟩
    rw [← List.mem_eraseDups, ← hfst] at hspecifier
    obtain ⟨pair, hpair, rfl⟩ := List.mem_map.1 hspecifier
    exact ⟨pair.2, hall pair hpair⟩

theorem failsWith_iff :
    FailsWith files transform resolver l e ↔ load files transform resolver l = .error e := by
  rw [load_eq_error]
  constructor
  · rintro (hfault | ⟨hsource, hfault⟩ | ⟨hsource, hbody, hsplit, hbefore, hfault⟩)
    · exact Or.inl ⟨_, hfault, rfl⟩
    · exact Or.inr (Or.inl ⟨_, _, hsource, hfault, rfl⟩)
    · refine Or.inr (Or.inr ⟨_, _, hsource, hbody, locateAll_eq_error.2 ?_⟩)
      have hfirst := exists_first_open_iff.1 ⟨_, _, hsplit, hbefore, hfault⟩
      rw [← find?_eraseDups] at hfirst
      obtain ⟨before, after, hsplit', hbefore', -⟩ := exists_first_open_iff.2 hfirst
      exact ⟨before, _, after, _, hsplit', hbefore', hfault, rfl⟩
  · rintro (⟨fault, hfault, rfl⟩ | ⟨source, fault, hsource, hfault, rfl⟩ |
      ⟨source, body, hsource, hbody, herror⟩)
    · exact FailsWith.read hfault
    · exact FailsWith.transform hsource hfault
    · obtain ⟨before, specifier, after, fault, hsplit, hbefore, hfault, rfl⟩ :=
        locateAll_eq_error.1 herror
      have hfirst := exists_first_open_iff.1 ⟨_, _, hsplit, hbefore, hfault⟩
      rw [find?_eraseDups] at hfirst
      obtain ⟨before', after', hsplit', hbefore', -⟩ := exists_first_open_iff.2 hfirst
      exact FailsWith.resolve hsource hbody hsplit' hbefore' hfault

theorem not_loadable_of_failsWith (h : FailsWith files transform resolver l e) :
    ¬ Loadable files transform resolver l := by
  intro hloadable
  obtain ⟨record, targets, hload⟩ := loadable_iff.1 hloadable
  cases hload.symm.trans (failsWith_iff.1 h)

/-! ## Required modules -/

/-- The modules that the module with an identifier depends on, none if it cannot be loaded. -/
def dependenciesOf (files : Files Id) (transform : Transformer Id) (resolver : Resolver)
    (id : ModuleId) : List ModuleId :=
  (targetsOf files transform resolver (resolver.locatedOf id)).map (·.id)

/-- The modules that a build needs: the entry, and what a module that is needed and can be loaded
depends on. -/
inductive Required (files : Files Id) (transform : Transformer Id) (resolver : Resolver)
    (entry : ModuleId) : ModuleId → Prop where
  | entry : Required files transform resolver entry entry
  | dependency {id : ModuleId} {source specifier : String} {body : Script.ModuleBody}
      {target : Located} (h : Required files transform resolver entry id)
      (hloadable : Loadable files transform resolver (resolver.locatedOf id))
      (hread : files.readText (resolver.locatedOf id).path = .ok source)
      (hbody : transform source id = .ok body) (hspecifier : specifier ∈ body.specifiers)
      (htarget : resolver.locateFrom files specifier (resolver.locatedOf id) = .ok target) :
      Required files transform resolver entry target.id

theorem mem_dependenciesOf {target : ModuleId} :
    target ∈ dependenciesOf files transform resolver id ↔
      Loadable files transform resolver (resolver.locatedOf id) ∧
      ∃ source body, files.readText (resolver.locatedOf id).path = .ok source ∧
        transform source id = .ok body ∧ ∃ specifier ∈ body.specifiers, ∃ l,
          resolver.locateFrom files specifier (resolver.locatedOf id) = .ok l ∧ l.id = target := by
  constructor
  · intro h
    obtain ⟨l, hl, rfl⟩ := List.mem_map.1 h
    rw [targetsOf] at hl
    split at hl
    · next record targets hload =>
      refine ⟨loadable_iff.2 ⟨record, targets, hload⟩, ?_⟩
      obtain ⟨source, body, pairs, hsource, hbody, hpairs, -, rfl⟩ := load_eq_ok.1 hload
      obtain ⟨hfst, hall⟩ := locateAll_eq_ok.1 hpairs
      obtain ⟨pair, hpair, rfl⟩ := List.mem_map.1 hl
      refine ⟨source, body, hsource, hbody, pair.1, ?_, pair.2, hall pair hpair, rfl⟩
      rw [← List.mem_eraseDups, ← hfst]
      exact List.mem_map_of_mem hpair
    · exact absurd hl List.not_mem_nil
  · rintro ⟨hloadable, source, body, hsource, hbody, specifier, hspecifier, l, hl, rfl⟩
    obtain ⟨record, targets, hload⟩ := loadable_iff.1 hloadable
    rw [dependenciesOf, (yields_of_load hload).2]
    obtain ⟨source', body', pairs, hsource', hbody', hpairs, -, rfl⟩ := load_eq_ok.1 hload
    obtain rfl := Except.ok.inj (hsource.symm.trans hsource')
    obtain rfl := Except.ok.inj (hbody.symm.trans hbody')
    obtain ⟨hfst, hall⟩ := locateAll_eq_ok.1 hpairs
    rw [← List.mem_eraseDups, ← hfst] at hspecifier
    obtain ⟨pair, hpair, rfl⟩ := List.mem_map.1 hspecifier
    obtain rfl := Except.ok.inj ((hall pair hpair).symm.trans hl)
    exact List.mem_map_of_mem (List.mem_map_of_mem hpair)

theorem required_iff_reachable {entry : ModuleId} :
    Required files transform resolver entry id ↔ Relation.ReflTransGen
      (fun a b => b ∈ dependenciesOf files transform resolver a) entry id := by
  constructor
  · intro h
    induction h with
    | entry => exact Relation.ReflTransGen.refl
    | dependency _ hloadable hread hbody hspecifier htarget ih =>
      exact ih.tail (mem_dependenciesOf.2
        ⟨hloadable, _, _, hread, hbody, _, hspecifier, _, htarget, rfl⟩)
  · intro h
    induction h with
    | refl => exact Required.entry
    | tail _ hstep ih =>
      obtain ⟨hloadable, source, body, hread, hbody, specifier, hspecifier, l, hl, rfl⟩ :=
        mem_dependenciesOf.1 hstep
      exact Required.dependency ih hloadable hread hbody hspecifier hl

/-! ## Identifiers and files -/

/-- Where case counts, what is stored lies in the file of its identifier. -/
theorem eq_locatedOf_of_isStored (hcase : resolver.settings.caseSensitive = true)
    (h : resolver.IsStored s l) : l = resolver.locatedOf l.id := by
  obtain ⟨base, ending, -, -, rfl, -⟩ := h
  rw [Resolver.locatedAt, Resolver.locatedOf, hcase, ModuleId.relativePath_ofClean, if_pos rfl]

/-- Where case counts, the rows of a search over files are those of a search over identifiers. -/
theorem rowsOfModules_eq_rowsOf {visited : List Located}
    (h : ∀ l ∈ visited, l = resolver.locatedOf l.id) :
    rowsOfModules files transform resolver visited =
      rowsOf (dependenciesOf files transform resolver) (visited.map (·.id)) := by
  rw [rowsOfModules, rowsOf, List.map_map]
  refine List.map_congr_left fun l hl => ?_
  rw [Function.comp_apply, dependenciesOf, ← h l hl]

/-- What can be reached is the start or is stored. -/
theorem isStored_of_reachable {start : ModuleId} (h : Relation.ReflTransGen
    (fun a b => b ∈ dependenciesOf s.toFiles transform resolver a) start id) :
    id = start ∨ ∃ l, resolver.IsStored s l ∧ l.id = id := by
  cases h with
  | refl => exact Or.inl rfl
  | tail _ hstep =>
    obtain ⟨l, hl, rfl⟩ := List.mem_map.1 hstep
    obtain ⟨specifier, hlocate⟩ := exists_locateFrom_of_mem_targetsOf hl
    exact Or.inr ⟨l, Resolver.isStored_of_locateFrom hlocate, rfl⟩

theorem length_le_of_reachable {start : ModuleId} (ids : List ModuleId) (hnodup : ids.Nodup)
    (h : ∀ id ∈ ids, Relation.ReflTransGen
      (fun a b => b ∈ dependenciesOf s.toFiles transform resolver a) start id) :
    ids.length ≤ moduleLimit s.files.length resolver.settings := by
  have hle := Resolver.length_le_of_isStored (hnodup.erase start) fun id hid => by
    obtain ⟨hne, hid⟩ := hnodup.mem_erase_iff.1 hid
    exact (isStored_of_reachable (h id hid)).resolve_left hne
  have hlength := List.le_length_erase (a := start) (l := ids)
  rw [moduleLimit]
  omega

/-- The first member of a list without a property is one only. -/
theorem first_unique {α : Type} {P : α → Prop} {before before' after after' : List α} {x x' : α}
    (h : before ++ x :: after = before' ++ x' :: after') (hbefore : ∀ b ∈ before, P b)
    (hx : ¬ P x) (hbefore' : ∀ b ∈ before', P b) (hx' : ¬ P x') : x = x' := by
  induction before generalizing before' with
  | nil =>
    match before' with
    | [] => exact (List.cons_eq_cons.1 h).1
    | b :: rest =>
      obtain ⟨rfl, -⟩ := List.cons_eq_cons.1 h
      exact absurd (hbefore' x List.mem_cons_self) hx
  | cons b rest ih =>
    match before' with
    | [] =>
      obtain ⟨rfl, -⟩ := List.cons_eq_cons.1 h
      exact absurd (hbefore b List.mem_cons_self) hx'
    | b' :: rest' =>
      exact ih (List.cons_eq_cons.1 h).2 (fun c hc => hbefore c (List.mem_cons_of_mem b hc))
        (fun c hc => hbefore' c (List.mem_cons_of_mem b' hc))

/-! ## Outcomes -/

/-- How the result of a build stands to an order of modules: they are the required ones, in the
order of discovery, and an error of the build is that of the first that cannot be loaded. -/
structure Outcome (files : Files Id) (transform : Transformer Id) (resolver : Resolver)
    (entry : ModuleId) (result : Except BuildError Graph) (order : List ModuleId) : Prop where
  breadthFirst : BreadthFirst entry (rowsOf (dependenciesOf files transform resolver) order)
  mem_iff : ∀ id, id ∈ order ↔ Required files transform resolver entry id
  error_iff : ∀ e, result = .error e ↔ ∃ before id after, order = before ++ id :: after ∧
    (∀ b ∈ before, Loadable files transform resolver (resolver.locatedOf b)) ∧
    FailsWith files transform resolver (resolver.locatedOf id) e

/-- A state of the loop says that what was left can be loaded, and how the search over
identifiers stands. -/
theorem Frontier.over_ids (hcase : resolver.settings.caseSensitive = true)
    (hstart : start = resolver.locatedOf start.id) {visited queue : List Located} {g : Graph}
    (h : Frontier s.toFiles transform resolver start visited g queue) :
    Exploring start.id (rowsOf (dependenciesOf s.toFiles transform resolver) (visited.map (·.id)))
      (queue.map (·.id)) ∧
    (∀ l ∈ visited ++ queue, l = resolver.locatedOf l.id) ∧
    ∀ id ∈ visited.map (·.id), Loadable s.toFiles transform resolver (resolver.locatedOf id) := by
  have hfile : ∀ l ∈ visited ++ queue, l = resolver.locatedOf l.id := by
    intro l hl
    rcases h.isStored l hl with heq | hstored
    · rw [heq]
      exact hstart
    · exact eq_locatedOf_of_isStored hcase hstored
  have hvisited : ∀ l ∈ visited, l = resolver.locatedOf l.id :=
    fun l hl => hfile l (List.mem_append_left _ hl)
  refine ⟨rowsOfModules_eq_rowsOf hvisited ▸ h.exploring, hfile, fun id hid => ?_⟩
  obtain ⟨l, hl, rfl⟩ := List.mem_map.1 hid
  obtain ⟨record, hyields⟩ : ∃ record, Yields s.toFiles transform resolver l record := by
    obtain ⟨i, hi, rfl⟩ := List.getElem_of_mem hl
    exact ⟨_, h.records.get hi (h.records.length_eq ▸ hi)⟩
  rw [← hvisited l hl]
  exact loadable_iff.2 ⟨record, _, hyields⟩

/-- What a build comes to is settled by the order of discovery of the modules it needs. -/
theorem exists_outcome (hcase : resolver.settings.caseSensitive = true)
    (hstart : start = resolver.locatedOf start.id) {begun : List Located}
    {result : Except BuildError Graph}
    (run : Runs s.toFiles transform resolver (empty start.id) [start] begun result) :
    ∃ order, Outcome s.toFiles transform resolver start.id result order ∧
      ((∃ g, result = .ok g) ↔
        ∀ id ∈ order, Loadable s.toFiles transform resolver (resolver.locatedOf id)) := by
  have hfirst := frontier_start s.toFiles transform resolver start
  have hmem : ∀ {order},
      BreadthFirst start.id (rowsOf (dependenciesOf s.toFiles transform resolver) order) →
      ∀ id, id ∈ order ↔ Required s.toFiles transform resolver start.id id :=
    fun h id => h.mem_iff_reachable.trans required_iff_reachable.symm
  cases result with
  | ok g =>
    obtain ⟨hexploring, -, hloadable⟩ := (run.frontier_of_ok hfirst).over_ids hcase hstart
    rw [List.nil_append] at hexploring hloadable
    have hbreadth := hexploring.breadthFirst
    refine ⟨begun.map (·.id), ⟨hbreadth, hmem hbreadth, fun e => ⟨fun h => (by cases h), ?_⟩⟩,
      fun _ => hloadable, fun _ => ⟨g, rfl⟩⟩
    rintro ⟨before, id, after, hsplit, -, hfails⟩
    refine absurd (hloadable id ?_) (not_loadable_of_failsWith hfails)
    rw [hsplit]
    exact List.mem_append_right _ List.mem_cons_self
  | error e =>
    obtain ⟨before, l, rest, g', rfl, hfrontier, herror⟩ := run.frontier_of_error hfirst
    obtain ⟨hexploring, hfile, hloadable⟩ := hfrontier.over_ids hcase hstart
    rw [List.nil_append] at hexploring hfile hloadable
    -- The loop stopped at `l`; the order of discovery goes on as if it had no dependencies.
    obtain ⟨more, hbreadth⟩ := hexploring.exists_breadthFirst length_le_of_reachable
    have hl : l = resolver.locatedOf l.id :=
      hfile l (List.mem_append_right _ List.mem_cons_self)
    have hfails : FailsWith s.toFiles transform resolver (resolver.locatedOf l.id) e :=
      hl ▸ failsWith_iff.2 herror
    rw [List.map_cons, List.append_assoc, List.cons_append] at hbreadth
    refine ⟨_, ⟨hbreadth, hmem hbreadth, fun e' => ⟨fun h => ?_, ?_⟩⟩,
      fun ⟨g, hg⟩ => (by cases hg), fun hall => ?_⟩
    · obtain rfl := Except.error.inj h
      exact ⟨_, l.id, _, rfl, hloadable, hfails⟩
    · rintro ⟨before', id, after, hsplit, hbefore', hfails'⟩
      obtain rfl := first_unique hsplit hloadable (not_loadable_of_failsWith hfails) hbefore'
        (not_loadable_of_failsWith hfails')
      rw [← hl] at hfails'
      exact congrArg Except.error
        (Except.error.inj (herror.symm.trans (failsWith_iff.1 hfails')))
    · exact absurd (hall l.id (List.mem_append_right _ List.mem_cons_self))
        (not_loadable_of_failsWith hfails)

/-- Where case counts and the entry is found, a build succeeds exactly if every module it needs can
be loaded. These modules have one order of discovery, and a build that fails does so with the
error of the first in this order that cannot be loaded. -/
theorem buildEntry_outcome (hcase : resolver.settings.caseSensitive = true)
    (hentry : resolver.locateEntry (m := Id) s.toFiles entry = .ok start) :
    ((∃ g, buildEntry (m := Id) s.toFiles transform resolver entry = .ok g) ↔
      ∀ id, Required s.toFiles transform resolver start.id id →
        Loadable s.toFiles transform resolver (resolver.locatedOf id)) ∧
    ∃! order, Outcome s.toFiles transform resolver start.id
      (buildEntry (m := Id) s.toFiles transform resolver entry) order := by
  have hstart := eq_locatedOf_of_isStored hcase (Resolver.isStored_of_locateEntry hentry)
  obtain ⟨begun, result, run, -⟩ := exists_runs_of_start s transform resolver start
  have hbuild : buildEntry (m := Id) s.toFiles transform resolver entry = result := by
    rw [buildEntry, hentry]
    exact buildFrom_of_runs run
  obtain ⟨order, houtcome, hok⟩ := exists_outcome hcase hstart run
  rw [hbuild]
  refine ⟨hok.trans (forall_congr' fun id => by rw [houtcome.mem_iff]), order, houtcome, ?_⟩
  intro order' houtcome'
  exact houtcome'.breadthFirst.unique houtcome.breadthFirst

/-- Three modules, of which the second depends on a file that is not there and the third is not
understood. -/
def brokenStore : Store := .ofFiles
  [("/p/m.js", Text.encode "import './a';\nimport './b';\n"),
   ("/p/a.js", Text.encode "import './gone';\n"),
   ("/p/b.js", Text.encode "import ;\n")]

theorem buildEntry_outcome_brokenStore :
    pairResolver.settings.caseSensitive = true ∧
    pairResolver.locateEntry (m := Id) brokenStore.toFiles "m.js" =
      .ok ⟨⟨"./m.js"⟩, "/p/m.js", "m.js"⟩ ∧
    ((∃ g, buildEntry (m := Id) brokenStore.toFiles scriptTransformer pairResolver "m.js" = .ok g) ↔
      ∀ id, Required brokenStore.toFiles scriptTransformer pairResolver ⟨"./m.js"⟩ id →
        Loadable brokenStore.toFiles scriptTransformer pairResolver (pairResolver.locatedOf id)) ∧
    ∃! order, Outcome brokenStore.toFiles scriptTransformer pairResolver ⟨"./m.js"⟩
      (buildEntry (m := Id) brokenStore.toFiles scriptTransformer pairResolver "m.js") order := by
  have hentry : pairResolver.locateEntry (m := Id) brokenStore.toFiles "m.js" =
      .ok ⟨⟨"./m.js"⟩, "/p/m.js", "m.js"⟩ := by
    show @Eq (Except ResolveError Located) _ _
    decide +kernel
  exact ⟨rfl, hentry, buildEntry_outcome rfl hentry⟩

end ModuleBundler.Graph
