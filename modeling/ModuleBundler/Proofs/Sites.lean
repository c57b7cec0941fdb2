import ModuleBundler.CommandLine.Explain
import ModuleBundler.File.Disk
import ModuleBundler.Proofs.BuildRun
import ModuleBundler.Proofs.Canonical
import ModuleBundler.Proofs.Effect

/-
  The text that is shown for an error. An error about a place in a module tells the identifier of
  the module and not the path of its file, and when the error is explained the path is made again
  from the identifier. Over a file system of any kind the module at fault is one that was found,
  whose text was read from its own path and refused (`Graph.accounts_buildEntry`), and the path that
  is made again is this path exactly if case counts or the path has no upper case
  (`Resolver.join_relativePath_iff`). If the files stay as they are, it is then the refused text
  that is shown (`diagnosed_of_bundle`). Where case does not count, the text shown may be that of
  another file (`another_file_shown`).
-/

namespace ModuleBundler

/-! ## Results from some states -/

/-- Whether a program that starts in some of the states ends in one of them, and what it gives has
a property. -/
def EnsuresWithin {σ α : Type} (within : σ → Prop) (x : StateM σ α) (p : α → Prop) : Prop :=
  ∀ st, within st → within (x st).2 ∧ p (x st).1

section Within

variable {σ α β : Type} {within : σ → Prop} {x : StateM σ α} {f : α → StateM σ β} {a : α}
variable {p p' : α → Prop} {q : β → Prop}

theorem ensuresWithin_pure (h : p a) : EnsuresWithin within (pure a) p := fun _ hst => ⟨hst, h⟩

theorem EnsuresWithin.bind (hx : EnsuresWithin within x p)
    (hf : ∀ a, p a → EnsuresWithin within (f a) q) : EnsuresWithin within (x >>= f) q := by
  intro st hst
  obtain ⟨hst', hp⟩ := hx st hst
  rw [bind_apply]
  exact hf _ hp _ hst'

/-- Two properties, one of which holds from all states. -/
theorem EnsuresWithin.and (hx : EnsuresWithin within x p) (hx' : Ensures x p') :
    EnsuresWithin within x fun a => p a ∧ p' a :=
  fun st hst => ⟨(hx st hst).1, (hx st hst).2, hx' st⟩

end Within

/-- Programs that stay within some states, each of them related to any other. -/
def staying {σ : Type} (within : σ → Prop) : Simulation (StateM σ) (StateM σ) where
  rel x _ := EnsuresWithin within x fun _ => True
  rel_pure _ := ensuresWithin_pure trivial
  rel_bind hx hf := hx.bind fun a _ => hf a

/-! ## Texts that are refused -/

/-- Whether the text of a module was read from its path, in one of some states, and refused. -/
def Refused {σ : Type} (files : Files (StateM σ)) (transform : Transformer (StateM σ))
    (within : σ → Prop) (l : Located) (text : String) (fault : TransformError) : Prop :=
  ∃ before, within before ∧ (files.readText l.path before).1 = .ok text ∧
    (transform text l.id (files.readText l.path before).2).1 = .error fault

/-- What a part of a build comes to: a value with a property, or an error, which is about a text
only if this is the refused text of a module that was found. -/
def Accounts {σ β : Type} (files : Files (StateM σ)) (transform : Transformer (StateM σ))
    (r : Resolver) (within : σ → Prop) (q : β → Prop) : Except BuildError β → Prop
  | .ok b => q b
  | .error e => ∀ fault, e.fault = .transform fault → ∃ l text, r.IsCandidate l ∧
      Refused files transform within l text fault ∧ e = ⟨some l.id, none, .transform fault⟩

/-- There is nothing to account for in an error about something else than a text. -/
theorem accounts_error {σ β : Type} {files : Files (StateM σ)} {transform : Transformer (StateM σ)}
    {r : Resolver} {within : σ → Prop} {q : β → Prop} {e : BuildError}
    (h : ∀ fault, e.fault ≠ .transform fault) : Accounts files transform r within q (.error e) :=
  fun fault hfault => absurd hfault (h fault)

namespace Graph

variable {σ : Type} {files : Files (StateM σ)} {transform : Transformer (StateM σ)}
  {within : σ → Prop} (hfiles : (staying within).RelatesFiles files files)
  (htransform : ∀ source id, EnsuresWithin within (transform source id) fun _ => True)
  (r : Resolver)
include hfiles

theorem accounts_locateAll (importer : Located) (specifiers : List String) :
    EnsuresWithin within (locateAll files r importer specifiers)
      (Accounts files transform r within fun pairs => ∀ pair ∈ pairs, r.IsCandidate pair.2) := by
  induction specifiers with
  | nil => exact ensuresWithin_pure fun pair hpair => absurd hpair List.not_mem_nil
  | cons specifier rest ih =>
    have hstays : EnsuresWithin within (r.locateFrom files specifier importer) fun _ => True :=
      Simulation.locateFrom hfiles r specifier importer
    have hfind := hstays.and (Resolver.ensures_locateFrom files r specifier importer)
    refine hfind.bind fun found hfound => ?_
    match found with
    | .error e => exact ensuresWithin_pure (accounts_error nofun)
    | .ok target =>
      refine ih.bind fun targets htargets => ?_
      match targets with
      | .error e => exact ensuresWithin_pure htargets
      | .ok targets =>
        refine ensuresWithin_pure fun pair hpair => ?_
        rcases List.mem_cons.1 hpair with rfl | hpair
        · exact hfound.2 target rfl
        · exact htargets pair hpair

include htransform

/-- Loading a module that was found accounts for its errors, and leads to modules that were
found. -/
theorem accounts_load {module : Located} (hmodule : r.IsCandidate module) :
    EnsuresWithin within (load files transform r module)
      (Accounts files transform r within fun loaded => ∀ l ∈ loaded.2, r.IsCandidate l) := by
  intro before hbefore
  have hread : within (files.readText module.path before).2 :=
    (Simulation.readText hfiles module.path before hbefore).1
  unfold load
  rw [bind_apply]
  -- The text is transformed in the state in which reading it ends.
  cases htext : (files.readText module.path before).1 with
  | error e => exact ⟨hread, accounts_error nofun⟩
  | ok source =>
    have htransformed := (htransform source module.id _ hread).1
    dsimp only
    rw [bind_apply]
    cases hbody : (transform source module.id (files.readText module.path before).2).1 with
    | error fault =>
      refine ⟨htransformed, fun fault' h => ?_⟩
      obtain rfl := BuildFault.transform.inj h
      exact ⟨module, source, hmodule, ⟨before, hbefore, htext, hbody⟩, rfl⟩
    | ok body =>
      have htargets : EnsuresWithin within (locateAll files r module body.specifiers.eraseDups)
          (Accounts files transform r within fun pairs => ∀ pair ∈ pairs, r.IsCandidate pair.2) :=
        accounts_locateAll hfiles r module _
      refine htargets.bind (fun targets htargets => ?_) _ htransformed
      match targets with
      | .error e => exact ensuresWithin_pure htargets
      | .ok targets => exact ensuresWithin_pure (List.forall_mem_map.2 htargets)

/-- The loop of a build accounts for its errors if the modules in its queue were found. -/
theorem accounts_loadAll (limit n : Nat) (g : Graph) {queue : List Located}
    (hqueue : ∀ l ∈ queue, r.IsCandidate l) :
    EnsuresWithin within (loadAll files transform r limit n g queue)
      (Accounts files transform r within fun _ => True) := by
  induction n generalizing g queue with
  | zero =>
    match queue with
    | [] => exact ensuresWithin_pure trivial
    | module :: _ => exact ensuresWithin_pure (accounts_error nofun)
  | succ n ih =>
    match queue with
    | [] => exact ensuresWithin_pure trivial
    | module :: queue =>
      obtain ⟨hmodule, hqueue⟩ := List.forall_mem_cons.1 hqueue
      refine (accounts_load hfiles htransform r hmodule).bind fun loaded hloaded => ?_
      match loaded with
      | .error e => exact ensuresWithin_pure hloaded
      | .ok (record, targets) =>
        refine ih (g.insert record) fun l hl => ?_
        rcases find?_of_mem_enqueue hl with hl | ⟨hfind, -⟩
        · exact hqueue l hl
        · exact hloaded l (List.mem_of_find?_eq_some hfind)

theorem accounts_buildEntry (entry : String) :
    EnsuresWithin within (buildEntry files transform r entry)
      (Accounts files transform r within fun _ => True) := by
  have hstays : EnsuresWithin within (r.locateEntry files entry) fun _ => True :=
    Simulation.locateEntry hfiles r entry
  refine (hstays.and (Resolver.ensures_locateEntry files r entry)).bind fun found hfound => ?_
  match found with
  | .error e => exact ensuresWithin_pure (accounts_error nofun)
  | .ok start =>
    have hcapacity : EnsuresWithin within files.capacity fun _ => True := hfiles.capacity
    refine hcapacity.bind fun _ _ => accounts_loadAll hfiles htransform r _ _ _ ?_
    exact List.forall_mem_singleton.2 (hfound.2 start rfl)

end Graph

/-! ## Paths from identifiers -/

/-- Lower case leaves a path absolute or relative. -/
theorem Path.isAbsolute_toLower (p : String) : isAbsolute (Text.toLower p) = isAbsolute p := by
  rw [isAbsolute, isAbsolute, toList_toLower]
  cases p.toList with
  | nil => rfl
  | cons c cs =>
    rw [Text.lowerAfter_cons]
    by_cases hc : Text.isSeparator c = true
    · rw [Text.lowerIn_separator hc]
      rfl
    · have hc : Text.isSeparator c = false := Bool.not_eq_true _ ▸ hc
      obtain ⟨d, ds, hlower⟩ := List.exists_cons_of_ne_nil (Text.lowerIn_ne_nil [] c cs)
      have hd : Text.isSeparator d = false :=
        Text.not_isSeparator_of_mem_lowerIn hc (hlower ▸ List.mem_cons_self)
      have hne : ∀ {x}, Text.isSeparator x = false → (some x == some '/') = false := by
        intro x hx
        refine beq_eq_false_iff_ne.2 fun heq => ?_
        rw [Option.some.inj heq] at hx
        cases hx
      rw [hlower, List.cons_append, List.head?_cons, List.head?_cons, hne hd, hne hc]

namespace Resolver

variable {r : Resolver} {l : Located}

/-- The path that is made from the identifier of a module that was found is that of its file exactly
if case counts or there is no upper case to lose. -/
theorem join_relativePath_iff (h : r.IsCandidate l) :
    Path.join r.root l.id.relativePath = l.path ↔
      r.settings.caseSensitive = true ∨ Text.toLower l.relative = l.relative := by
  obtain ⟨base, ending, hbase, -, rfl⟩ := h
  have habsolute := Path.isAbsolute_of_isClean hbase ending
  rw [locatedAt, ModuleId.relativePath_ofClean]
  by_cases hcase : r.settings.caseSensitive = true
  · rw [if_pos hcase]
    exact ⟨fun _ => Or.inl hcase, fun _ => rfl⟩
  · rw [if_neg hcase, Path.join_eq_lead habsolute,
      Path.join_eq_lead ((Path.isAbsolute_toLower _).trans habsolute), String.append_right_inj]
    exact (or_iff_right hcase).symm

end Resolver

/-! ## Bundles without a graph -/

section Bundling

variable {σ : Type} {fs : FileSystem (StateM σ)} {transform : Transformer (StateM σ)}
  {milliseconds : Nat} {settings : BuildSettings} {st st' : σ} {e : BundleError}

theorem ensures_writeOutput (fs : FileSystem (StateM σ)) (path code : String) :
    Ensures (writeOutput fs path code) fun result =>
      ∀ e, result = .error e → ∃ fault, e = .output path fault := by
  refine Ensures.after _ fun made => ?_
  match made with
  | .error fault => exact ensures_pure fun e h => ⟨fault, (Except.error.inj h).symm⟩
  | .ok () =>
    refine Ensures.after _ fun written => ?_
    match written with
    | .error fault => exact ensures_pure fun e h => ⟨fault, (Except.error.inj h).symm⟩
    | .ok () =>
      refine ensures_pure fun e h => ?_
      cases h

/-- A graph that fails is that of a build that fails. -/
theorem buildEntry_of_buildGraph_error {e : BuildError}
    (h : buildGraph fs.toFiles transform settings st = (.error (.build e), st')) :
    Graph.buildEntry fs.toFiles transform ⟨settings.root, settings.resolve⟩ settings.entry st =
      (.error e, st') := by
  unfold buildGraph at h
  rw [bind_apply] at h
  cases hbuilt : Graph.buildEntry fs.toFiles transform ⟨settings.root, settings.resolve⟩
    settings.entry st with
  | mk graph? st₁ =>
    rw [hbuilt] at h
    cases graph? with
    | error e₁ =>
      cases h
      rfl
    | ok graph => cases h

/-- A bundle that fails with an error of its graph has come no further than the graph. -/
theorem buildGraph_of_bundle_error {e : BuildError}
    (h : bundle fs transform milliseconds settings st = (.error (.build e), st')) :
    buildGraph fs.toFiles transform settings st = (.error (.build e), st') := by
  unfold bundle at h
  rw [bind_apply] at h
  cases hgraph : buildGraph fs.toFiles transform settings st with
  | mk graph? st₁ =>
    rw [hgraph] at h
    cases graph? with
    | error e₁ =>
      cases h
      rfl
    | ok graph =>
      -- What comes after the graph has errors of other kinds.
      dsimp only at h
      cases hcode : assemble graph settings.output with
      | error fault =>
        rw [hcode] at h
        cases h
      | ok code =>
        rw [hcode] at h
        dsimp only at h
        by_cases hwrite : settings.output.write = true
        · rw [if_pos hwrite, bind_apply] at h
          cases hresult :
            (writeOutput fs (outputPath settings graph.entry milliseconds) code st₁).1 with
          | error fault =>
            obtain ⟨_, hfault⟩ := ensures_writeOutput fs _ code st₁ fault hresult
            rw [hresult, hfault] at h
            cases h
          | ok _ =>
            rw [hresult] at h
            cases h
        · rw [if_neg hwrite] at h
          cases h

/-! ## What is shown -/

/-- Whether a program leaves what is read from every path as it was. -/
def LeavesContents {α : Type} (files : Files (StateM σ)) (x : StateM σ α) : Prop :=
  ∀ st path, (files.read path (x st).2).1 = (files.read path st).1

/-- Whether the files stay as they are while they are looked for and read and texts are
transformed. -/
structure Steady (files : Files (StateM σ)) (transform : Transformer (StateM σ)) : Prop where
  isFile : ∀ path, LeavesContents files (files.isFile path)
  read : ∀ path, LeavesContents files (files.read path)
  capacity : LeavesContents files files.capacity
  transform : ∀ source id, LeavesContents files (transform source id)

/-- Whether the same is read in a state as in another, as long as nothing changes the files. -/
def Alike (files : Files (StateM σ)) (transform : Transformer (StateM σ)) (st st' : σ) : Prop :=
  Steady files transform → ∀ path, (files.read path st').1 = (files.read path st).1

/-- What is shown for an error about a place in a module, when a bundle was to be made. The module
was found, and its text was read from its path and refused. The text shown is read from the path
that is made from its identifier, which is the same path exactly if case counts or the path has no
upper case; then the text is the same too, as long as the files stay as they are. -/
structure Diagnosed (fs : FileSystem (StateM σ)) (transform : Transformer (StateM σ))
    (settings : BuildSettings) (st st' : σ) (e : BundleError) (id : ModuleId) (line column : Nat)
    (l : Located) (text : String) (fault : TransformError) : Prop where
  candidate : Resolver.IsCandidate ⟨settings.root, settings.resolve⟩ l
  same_id : l.id = id
  about : e = .build ⟨some id, none, .transform fault⟩
  position : fault.position? = some (line, column)
  refused : Refused fs.toFiles transform (Alike fs.toFiles transform st) l text fault
  shown : siteLines fs.toFiles settings.root e st' =
    (match (fs.toFiles.readText (Path.join settings.root id.relativePath) st').1 with
      | .ok source => sourceContext source line column
      | .error _ => [],
    (fs.toFiles.readText (Path.join settings.root id.relativePath) st').2)
  same_path : Path.join settings.root id.relativePath = l.path ↔
    settings.resolve.caseSensitive = true ∨ Text.toLower l.relative = l.relative
  alike : Alike fs.toFiles transform st st'
  same_text : Steady fs.toFiles transform →
    Path.join settings.root id.relativePath = l.path →
      (siteLines fs.toFiles settings.root e st').1 = sourceContext text line column

theorem site?_eq_some_iff {id : ModuleId} {place : Nat × Nat} : e.site? = some (id, place) ↔
    ∃ specifier? fault, e = .build ⟨some id, specifier?, .transform fault⟩ ∧
      fault.position? = some place := by
  constructor
  · intro h
    unfold BundleError.site? at h
    split at h
    · next id' specifier? fault =>
      obtain ⟨place', hplace, heq⟩ := Option.map_eq_some_iff.1 h
      cases heq
      exact ⟨specifier?, fault, rfl, hplace⟩
    · cases h
  · rintro ⟨specifier?, fault, rfl, hplace⟩
    exact Option.map_eq_some_iff.2 ⟨place, hplace, rfl⟩

theorem siteLines_of_site {id : ModuleId} {line column : Nat} (files : Files (StateM σ))
    (root : String) (hsite : e.site? = some (id, line, column)) :
    siteLines files root e st =
      (match (files.readText (Path.join root id.relativePath) st).1 with
        | .ok source => sourceContext source line column
        | .error _ => [],
      (files.readText (Path.join root id.relativePath) st).2) := by
  unfold siteLines
  rw [hsite]
  dsimp only
  rw [bind_apply]
  cases (files.readText (Path.join root id.relativePath) st).1 <;> rfl

section Reading

variable {files : Files (StateM σ)}

theorem readText_congr {path : String} (h : (files.read path st').1 = (files.read path st).1) :
    (files.readText path st').1 = (files.readText path st).1 := by
  unfold Files.readText
  rw [bind_apply, bind_apply, h]
  cases (files.read path st).1 <;> rfl

theorem ensuresWithin_alike {α : Type} {x : StateM σ α}
    (hx : Steady files transform → LeavesContents files x) :
    EnsuresWithin (Alike files transform st) x fun _ => True :=
  fun st' hst' =>
    ⟨fun hsteady path => (hx hsteady st' path).trans (hst' hsteady path), trivial⟩

theorem relatesFiles_alike : (staying (Alike files transform st)).RelatesFiles files files where
  isFile path := ensuresWithin_alike fun hsteady => hsteady.isFile path
  read path := ensuresWithin_alike fun hsteady => hsteady.read path
  capacity := ensuresWithin_alike Steady.capacity

end Reading

/-- An error about a place in a module is shown with the refused text of this module, unless case
does not count and the path has upper case. -/
theorem diagnosed_of_bundle {id : ModuleId} {line column : Nat}
    (h : bundle fs transform milliseconds settings st = (.error e, st'))
    (hsite : e.site? = some (id, line, column)) :
    ∃ l text fault, Diagnosed fs transform settings st st' e id line column l text fault := by
  obtain ⟨specifier?, fault, rfl, hplace⟩ := site?_eq_some_iff.1 hsite
  have hstart : Alike fs.toFiles transform st st := fun _ _ => rfl
  have hbuilt := Graph.accounts_buildEntry relatesFiles_alike
    (fun source id => ensuresWithin_alike fun hsteady => hsteady.transform source id)
    ⟨settings.root, settings.resolve⟩ settings.entry st hstart
  rw [buildEntry_of_buildGraph_error (buildGraph_of_bundle_error h)] at hbuilt
  obtain ⟨hst', haccounts⟩ := hbuilt
  obtain ⟨l, text, hcandidate, hrefused, heq⟩ := haccounts fault rfl
  cases heq
  refine ⟨l, text, fault, hcandidate, rfl, rfl, hplace, hrefused, siteLines_of_site _ _ hsite,
    Resolver.join_relativePath_iff hcandidate, hst', fun hsteady hpath => ?_⟩
  obtain ⟨before, hbefore, htext, -⟩ := hrefused
  have hread : (fs.toFiles.readText l.path st').1 = .ok text :=
    (readText_congr ((hst' hsteady l.path).trans (hbefore hsteady l.path).symm)).trans htext
  rw [siteLines_of_site _ _ hsite, hpath, hread]

/-- A store stays as it is while its files are looked for and read. -/
theorem Store.steady {transform : Transformer (StateM Store)}
    (htransform : ∀ source id, ReadsOnly (transform source id)) :
    Steady fileSystem.toFiles transform where
  isFile _ _ _ := rfl
  read _ _ _ := rfl
  capacity _ _ := rfl
  transform source id s path := by rw [htransform]

/-- So does a disk. -/
theorem Disk.steady (base? : Option String) {transform : Transformer (StateM Disk)}
    (htransform : ∀ source id d, (transform source id d).2 = d) :
    Steady (fileSystem base?).toFiles transform where
  isFile _ _ _ := rfl
  read _ _ _ := rfl
  capacity _ _ := rfl
  transform source id d path := by rw [htransform]

end Bundling

/-! ## Two files that differ in case -/

namespace Store

/-- A project in which the entry is malformed, and another file has its name in lower case. -/
def caseStore : Store := ofFiles
  [("/p/Main.js", Text.encode "'"), ("/p/main.js", Text.encode "run();\n")]

/-- The settings of the project. -/
def caseSettings (caseSensitive : Bool) : BuildSettings where
  entry := "Main.js"
  root := "/p"
  resolve := { caseSensitive := caseSensitive }

/-- What making a bundle of the project comes to. -/
def caseResult (caseSensitive : Bool) : Except BundleError Bundle × Store :=
  bundle fileSystem scriptTransformer 0 (caseSettings caseSensitive) caseStore

/-- The error that is found in the entry. -/
def caseError (id : ModuleId) : BundleError :=
  .build ⟨some id, none, .transform (.malformed "unterminated string literal" 1 1)⟩

theorem diagnosed_of_bundle_caseStore : ∃ s',
    caseResult true = (.error (caseError ⟨"./Main.js"⟩), s') ∧
    (caseError ⟨"./Main.js"⟩).site? = some (⟨"./Main.js"⟩, 1, 1) ∧
    Steady fileSystem.toFiles scriptTransformer ∧
    ∃ l text fault, Diagnosed fileSystem scriptTransformer (caseSettings true) caseStore s'
      (caseError ⟨"./Main.js"⟩) ⟨"./Main.js"⟩ 1 1 l text fault := by
  have herror : (caseResult true).1 = .error (caseError ⟨"./Main.js"⟩) := by decide +kernel
  have hresult : caseResult true = (.error (caseError ⟨"./Main.js"⟩), (caseResult true).2) :=
    Prod.ext herror rfl
  exact ⟨_, hresult, rfl, steady fun _ _ => readsOnly_pure _, diagnosed_of_bundle hresult rfl⟩

/-- Where case does not count, the text of the other file is shown for the error in the entry. -/
theorem another_file_shown :
    (caseResult false).1 = .error (caseError ⟨"./main.js"⟩) ∧
    (caseError ⟨"./main.js"⟩).site? = some (⟨"./main.js"⟩, 1, 1) ∧
    Resolver.locateEntry (m := Id) caseStore.toFiles ⟨"/p", { caseSensitive := false }⟩ "Main.js" =
      .ok ⟨⟨"./main.js"⟩, "/p/Main.js", "Main.js"⟩ ∧
    (fileSystem.toFiles.readText "/p/Main.js" caseStore).1 = .ok "'" ∧
    (siteLines fileSystem.toFiles "/p" (caseError ⟨"./main.js"⟩) (caseResult false).2).1 =
      ["--|--", "1 | run();", "  | ^", "--|--"] ∧
    sourceContext "'" 1 1 = ["--|--", "1 | '", "  | ^", "--|--"] := by
  refine ⟨by decide +kernel, rfl, ?_, ?_, ?_, by decide +kernel⟩
  · show @Eq (Except ResolveError Located) _ _
    decide +kernel
  · show @Eq (Except FileError String) _ _
    decide +kernel
  · show @Eq (List String) _ _
    decide +kernel

end Store

end ModuleBundler
