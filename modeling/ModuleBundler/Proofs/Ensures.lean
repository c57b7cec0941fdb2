import ModuleBundler.Proofs.Locate

/-
  What holds of every result, whatever a file system answers and a transformer gives. Both may keep
  a state of any kind and answer differently each time they are asked. A module that is found is
  still one of the candidates of its path (`ensures_locateEntry`, `ensures_locateFrom`), and a record
  that is loaded still has the identifiers of its targets as dependencies (`ensures_load`).
-/

namespace ModuleBundler

/-! ## Results from any state -/

/-- Whether what a program gives has a property, from whatever state it starts. -/
def Ensures {σ α : Type} (x : StateM σ α) (p : α → Prop) : Prop := ∀ st, p (x st).1

variable {σ α β : Type} {x : StateM σ α} {f : α → StateM σ β} {a : α} {p : α → Prop} {q : β → Prop}

theorem ensures_true (x : StateM σ α) : Ensures x fun _ => True := fun _ => trivial

theorem ensures_pure (h : p a) : Ensures (pure a : StateM σ α) p := fun _ => h

theorem Ensures.bind (hx : Ensures x p) (hf : ∀ a, p a → Ensures (f a) q) :
    Ensures (x >>= f) q := by
  intro st
  show q (f (x st).1 (x st).2).1
  exact hf _ (hx st) _

/-- The same where nothing needs to be known of the first result. -/
theorem Ensures.after (x : StateM σ α) (hf : ∀ a, Ensures (f a) q) : Ensures (x >>= f) q :=
  (ensures_true x).bind fun a _ => hf a

theorem ensures_error {ε : Type} {p : α → Prop} (e : ε) :
    Ensures (pure (.error e) : StateM σ (Except ε α)) fun result => ∀ a, result = .ok a → p a := by
  refine ensures_pure fun a h => ?_
  cases h

/-! ## Finding a module -/

namespace Resolver

variable (files : Files (StateM σ)) (r : Resolver)

/-- Whether a module is a candidate of some path: it has a clean path with an ending. -/
def IsCandidate (l : Located) : Prop :=
  ∃ base ending, Path.IsClean base ∧ ending ∈ r.endings ∧ l = r.locatedAt (base ++ ending)

theorem ensures_firstFile? (ls : List Located) :
    Ensures (firstFile? files ls) fun found? => ∀ l, found? = some l → l ∈ ls := by
  induction ls with
  | nil =>
    refine ensures_pure fun l h => ?_
    cases h
  | cons l rest ih =>
    refine Ensures.after _ fun found => ?_
    cases found with
    | true =>
      refine ensures_pure fun l' h => ?_
      obtain rfl := Option.some.inj h
      exact List.mem_cons_self
    | false => exact fun st l' h => List.mem_cons_of_mem l (ih st l' h)

theorem ensures_probe (path : String) :
    Ensures (probe files r path) fun result => ∀ l, result = .ok l → r.IsCandidate l := by
  unfold probe
  split
  · exact ensures_error _
  · next base hbase =>
    refine (ensures_firstFile? files _).bind fun found? hfound => ?_
    match found? with
    | none => exact ensures_error _
    | some l =>
      refine ensures_pure fun l' h => ?_
      obtain rfl := Except.ok.inj h
      obtain ⟨c, hc, rfl⟩ := List.mem_map.1 (hfound l rfl)
      obtain ⟨ending, hending, rfl⟩ := exists_ending_of_mem_candidates hc
      exact ⟨base, ending, Path.isClean_of_cleanRelative? hbase, hending, rfl⟩

/-- Errors may be put in other words. -/
theorem ensures_mapError {ε ε' α : Type} {x : StateM σ (Except ε α)} {p : α → Prop}
    (h : Ensures x fun result => ∀ a, result = .ok a → p a) (about : ε → ε') :
    Ensures (do return (← x).mapError about) fun result => ∀ a, result = .ok a → p a :=
  h.bind fun _ hresult => ensures_pure fun a ha => hresult a (ok_of_mapError_ok ha)

theorem ensures_locateIn (specifier directory : String) (importer : ModuleId) :
    Ensures (locateIn files r specifier directory importer)
      fun result => ∀ l, result = .ok l → r.IsCandidate l := by
  unfold locateIn
  split
  · exact ensures_mapError (ensures_probe files r _) _
  · exact ensures_error _

theorem ensures_locateFrom (specifier : String) (importer : Located) :
    Ensures (locateFrom files r specifier importer)
      fun result => ∀ l, result = .ok l → r.IsCandidate l :=
  ensures_locateIn files r specifier importer.directory importer.id

theorem ensures_locateEntry (entry : String) :
    Ensures (locateEntry files r entry) fun result => ∀ l, result = .ok l → r.IsCandidate l := by
  unfold locateEntry
  dsimp only
  split
  · exact ensures_error _
  · exact ensures_mapError (ensures_probe files r _) _

end Resolver

/-! ## Loading a module -/

/-- A record that is loaded is that of its module, and depends on its targets. -/
theorem Graph.ensures_load (files : Files (StateM σ)) (transform : Transformer (StateM σ))
    (r : Resolver) (module : Located) :
    Ensures (load files transform r module) fun result => ∀ loaded, result = .ok loaded →
      loaded.1.id = module.id ∧
        loaded.1.dependencies.map (·.2) = loaded.2.map (·.id) := by
  refine Ensures.after _ fun text => ?_
  match text with
  | .error e => exact ensures_error _
  | .ok source =>
    refine Ensures.after _ fun transformed => ?_
    match transformed with
    | .error e => exact ensures_error _
    | .ok body =>
      refine Ensures.after _ fun targets => ?_
      match targets with
      | .error e => exact ensures_error _
      | .ok targets =>
        refine ensures_pure fun loaded h => ?_
        obtain rfl := Except.ok.inj h
        refine ⟨rfl, ?_⟩
        rw [List.map_map, List.map_map]
        rfl

end ModuleBundler
