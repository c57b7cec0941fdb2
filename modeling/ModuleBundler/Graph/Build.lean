import ModuleBundler.Graph.Basic
import ModuleBundler.Resolve
import ModuleBundler.Transformer

/-
  Building a dependency graph. From the entry on, modules are read, transformed and searched for
  dependencies in breadth-first order; a module is loaded when it is first found and never again.
  The build stops at the first module that fails.

  How many modules there can be is bounded by the files there are and the endings that resolution
  may add to their paths. A build that would load more stops with an error; over a file system
  that tells its capacity rightly this does not come up.
-/

namespace ModuleBundler

/-! ## Errors -/

/-- What stopped a build. -/
inductive BuildFault where
  | read (error : FileError)
  | transform (error : TransformError)
  | resolve (error : ResolveError)
  /-- More modules than the bound allows. -/
  | tooManyModules (limit : Nat)
  deriving DecidableEq, Repr, Inhabited

/-- The wording of a fault. -/
def BuildFault.message : BuildFault → String
  | .read e => s!"cannot read module: {e.message}"
  | .transform e => s!"transform failed: {e.message}"
  | .resolve e => e.message
  | .tooManyModules limit => s!"more than {limit} modules"

/-- A fault with the module and the specifier that it is about. Where the entry itself is not
found there is no module, and the entry path stands as the specifier. -/
structure BuildError where
  module? : Option ModuleId
  specifier? : Option String
  fault : BuildFault
  deriving DecidableEq, Repr, Inhabited

namespace BuildError

/-- Where the error arose. -/
def place (e : BuildError) : String :=
  match e.module?, e.specifier? with
  | some id, some specifier => s!"in '{id.text}' (import '{specifier}')"
  | some id, none => s!"in '{id.text}'"
  | none, some entry => s!"entry '{entry}'"
  | none, none => "entry"

/-- The wording of an error. -/
def message (e : BuildError) : String := s!"{e.place}: {e.fault.message}"

/-- Whether a file that is not there is the cause. -/
def isNotFound (e : BuildError) : Bool :=
  match e.fault with
  | .read e => e.isNotFound
  | .resolve (.notFound _ _ _) => true
  | _ => false

end BuildError

/-! ## Building -/

namespace Graph

variable {m : Type → Type} [Monad m]

/-- The modules that the specifiers of a module mean, in order, up to the first specifier that
means none. -/
def locateAll (files : Files m) (resolver : Resolver) (importer : Located) :
    List String → m (Except BuildError (List (String × Located)))
  | [] => return .ok []
  | specifier :: rest => do
    match ← resolver.locateFrom files specifier importer with
    | .error e => return .error ⟨some importer.id, some specifier, .resolve e⟩
    | .ok target =>
      match ← locateAll files resolver importer rest with
      | .error e => return .error e
      | .ok targets => return .ok ((specifier, target) :: targets)

/-- Loads one module: its record, and the modules it depends on with their files. A specifier
that comes again counts once. -/
def load (files : Files m) (transform : Transformer m) (resolver : Resolver) (module : Located) :
    m (Except BuildError (Record × List Located)) := do
  match ← files.readText module.path with
  | .error e => return .error ⟨some module.id, none, .read e⟩
  | .ok source =>
    match ← transform source module.id with
    | .error e => return .error ⟨some module.id, none, .transform e⟩
    | .ok transformed =>
      match ← locateAll files resolver module transformed.specifiers.eraseDups with
      | .error e => return .error e
      | .ok targets =>
        return .ok
          (⟨module.id, transformed.code, targets.map fun t => (t.1, t.2.id)⟩, targets.map (·.2))

/-- The modules that are not known yet, each once, at the end of a queue. -/
def enqueue (g : Graph) (queue : List Located) : List Located → List Located
  | [] => queue
  | l :: rest =>
    if g.contains l.id || queue.any (·.id == l.id) then enqueue g queue rest
    else enqueue g (queue ++ [l]) rest

/-- Loads the modules in a queue and those that they lead to, at most `n` of them. -/
def loadAll (files : Files m) (transform : Transformer m) (resolver : Resolver) (limit : Nat) :
    Nat → Graph → List Located → m (Except BuildError Graph)
  | _, g, [] => return .ok g
  | 0, _, module :: _ => return .error ⟨some module.id, none, .tooManyModules limit⟩
  | n + 1, g, module :: queue => do
    match ← load files transform resolver module with
    | .error e => return .error e
    | .ok (record, targets) =>
      let g := g.insert record
      loadAll files transform resolver limit n g (g.enqueue queue targets)

/-- A bound on the modules of a graph: every file is reached under at most one identifier for each
ending of a candidate, and the entry comes on top. -/
def moduleLimit (capacity : Nat) (settings : ResolveSettings) : Nat :=
  capacity * (1 + 2 * settings.extensions.length) + 1

/-- The graph of everything that a module leads to. -/
def buildFrom (files : Files m) (transform : Transformer m) (resolver : Resolver)
    (entry : Located) : m (Except BuildError Graph) := do
  let limit := moduleLimit (← files.capacity) resolver.settings
  loadAll files transform resolver limit limit (empty entry.id) [entry]

/-- The graph of everything that the module with an identifier leads to. -/
def build (files : Files m) (transform : Transformer m) (resolver : Resolver)
    (entry : ModuleId) : m (Except BuildError Graph) :=
  buildFrom files transform resolver (resolver.locatedOf entry)

/-- The graph of everything that the module at the entry path leads to. -/
def buildEntry (files : Files m) (transform : Transformer m) (resolver : Resolver)
    (entry : String) : m (Except BuildError Graph) := do
  match ← resolver.locateEntry files entry with
  | .error e => return .error ⟨none, some entry, .resolve e⟩
  | .ok located => buildFrom files transform resolver located

end Graph

end ModuleBundler
