import ModuleBundler.File.Store
import ModuleBundler.Graph.Build

/-
  One build in two monads. A relation between programs is a simulation if it holds between programs
  that only give the same value, and between programs that are put together from related ones
  (`Simulation`). If it then holds between the operations of two file systems and between two
  transformers, it holds between the build with the ones and the build with the others
  (`Simulation.buildEntry`). So a build on a store that can be written to gives what it gives over
  the store's files as they are (`buildEntry_fileSystem`).
-/

namespace ModuleBundler

variable {m n : Type → Type} [Monad m] [Monad n]

/-- A relation between programs of two monads that goes through from their parts to the whole. -/
structure Simulation (m n : Type → Type) [Monad m] [Monad n] where
  rel : ∀ {α : Type}, m α → n α → Prop
  rel_pure : ∀ {α : Type} (a : α), rel (pure a) (pure a)
  rel_bind : ∀ {α β : Type} {x : m α} {y : n α} {f : α → m β} {g : α → n β},
    rel x y → (∀ a, rel (f a) (g a)) → rel (x >>= f) (y >>= g)

namespace Simulation

/-- Whether the operations of two file systems are related. -/
structure RelatesFiles (R : Simulation m n) (files : Files m) (files' : Files n) : Prop where
  isFile : ∀ path, R.rel (files.isFile path) (files'.isFile path)
  read : ∀ path, R.rel (files.read path) (files'.read path)
  capacity : R.rel files.capacity files'.capacity

variable {R : Simulation m n} {files : Files m} {files' : Files n} (h : R.RelatesFiles files files')
include h

theorem readText (path : String) : R.rel (files.readText path) (files'.readText path) := by
  refine R.rel_bind (h.read path) fun result => ?_
  cases result <;> exact R.rel_pure _

/-! ## Finding a module -/

theorem firstFile? (ls : List Located) :
    R.rel (Resolver.firstFile? files ls) (Resolver.firstFile? files' ls) := by
  induction ls with
  | nil => exact R.rel_pure none
  | cons l rest ih =>
    refine R.rel_bind (h.isFile l.path) fun found => ?_
    cases found with
    | true => exact R.rel_pure (some l)
    | false => exact ih

theorem probe (r : Resolver) (path : String) :
    R.rel (r.probe files path) (r.probe files' path) := by
  unfold Resolver.probe
  cases Path.cleanRelative? path with
  | none => exact R.rel_pure _
  | some base =>
    refine R.rel_bind (firstFile? h _) fun found? => ?_
    cases found? <;> exact R.rel_pure _

theorem locateFrom (r : Resolver) (specifier : String) (importer : Located) :
    R.rel (r.locateFrom files specifier importer) (r.locateFrom files' specifier importer) := by
  unfold Resolver.locateFrom Resolver.locateIn
  split
  · exact R.rel_bind (probe h r _) fun _ => R.rel_pure _
  · exact R.rel_pure _

theorem locateEntry (r : Resolver) (entry : String) :
    R.rel (r.locateEntry files entry) (r.locateEntry files' entry) := by
  unfold Resolver.locateEntry
  dsimp only
  split
  · exact R.rel_pure _
  · exact R.rel_bind (probe h r _) fun _ => R.rel_pure _

/-! ## Building -/

theorem locateAll (r : Resolver) (importer : Located) (specifiers : List String) :
    R.rel (Graph.locateAll files r importer specifiers)
      (Graph.locateAll files' r importer specifiers) := by
  induction specifiers with
  | nil => exact R.rel_pure _
  | cons specifier rest ih =>
    refine R.rel_bind (locateFrom h r specifier importer) fun target => ?_
    cases target with
    | error e => exact R.rel_pure _
    | ok target =>
      refine R.rel_bind ih fun targets => ?_
      cases targets <;> exact R.rel_pure _

variable {transform : Transformer m} {transform' : Transformer n}
  (htransform : ∀ source id, R.rel (transform source id) (transform' source id))
include htransform

theorem load (r : Resolver) (module : Located) :
    R.rel (Graph.load files transform r module) (Graph.load files' transform' r module) := by
  refine R.rel_bind (readText h module.path) fun text => ?_
  cases text with
  | error e => exact R.rel_pure _
  | ok source =>
    refine R.rel_bind (htransform source module.id) fun transformed => ?_
    cases transformed with
    | error e => exact R.rel_pure _
    | ok transformed =>
      refine R.rel_bind (locateAll h r module _) fun targets => ?_
      cases targets <;> exact R.rel_pure _

theorem loadAll (r : Resolver) (limit n : Nat) (g : Graph) (queue : List Located) :
    R.rel (Graph.loadAll files transform r limit n g queue)
      (Graph.loadAll files' transform' r limit n g queue) := by
  induction n generalizing g queue with
  | zero => cases queue <;> exact R.rel_pure _
  | succ n ih =>
    cases queue with
    | nil => exact R.rel_pure _
    | cons module queue =>
      refine R.rel_bind (load h htransform r module) fun loaded => ?_
      cases loaded with
      | error e => exact R.rel_pure _
      | ok loaded => exact ih _ _

theorem buildEntry (r : Resolver) (entry : String) :
    R.rel (Graph.buildEntry files transform r entry)
      (Graph.buildEntry files' transform' r entry) := by
  refine R.rel_bind (locateEntry h r entry) fun located => ?_
  cases located with
  | error e => exact R.rel_pure _
  | ok located => exact R.rel_bind h.capacity fun _ => loadAll h htransform r _ _ _ _

end Simulation

/-! ## Reading a store -/

namespace Store

/-- A program that reads a store, related to what it gives. -/
def answering (s : Store) : Simulation (StateM Store) Id where
  rel x y := x s = (y, s)
  rel_pure _ := rfl
  rel_bind {_ _ x y f g} hx hf := by
    show f (x s).1 (x s).2 = (g y, s)
    rw [hx]
    exact hf y

theorem answering_fileSystem (s : Store) :
    s.answering.RelatesFiles fileSystem.toFiles s.toFiles where
  isFile _ := rfl
  read _ := rfl
  capacity := rfl

/-- A build on a store leaves the store alone and gives what its files give. -/
theorem buildEntry_fileSystem (s : Store) (transform : Transformer Id) (r : Resolver)
    (entry : String) :
    Graph.buildEntry fileSystem.toFiles (fun source id => pure (transform source id)) r entry s =
      (Graph.buildEntry (m := Id) s.toFiles transform r entry, s) :=
  Simulation.buildEntry s.answering_fileSystem (fun _ _ => rfl) r entry

end Store

end ModuleBundler
