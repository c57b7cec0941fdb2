import ModuleBundler.File.Store

/-
  Stores that are shared. A store is used through handles, each of which knows the place of its
  store. A handle may be cloned; the clone leads to the same store, so that what is written through
  one is read through the other.
-/

namespace ModuleBundler

/-- Stores with the handles that lead to them. -/
structure Shared where
  stores : List Store
  /-- For each handle, the place of its store. -/
  handles : List Nat

namespace Shared

/-- One store of some files, with one handle. -/
def ofFiles (files : List (String × ByteArray)) : Shared := ⟨[.ofFiles files], [0]⟩

/-- One handle more, which leads where another one does. -/
def clone (m : Shared) (handle : Nat) : Shared :=
  { m with handles := m.handles ++ m.handles[handle]?.toList }

/-- A program on the store that a handle leads to. Where there is no such handle, it is not run. -/
def through {α : Type} (handle : Nat) (x : StateM Store α) : StateM Shared (Option α) := fun m =>
  match m.handles[handle]? with
  | none => (none, m)
  | some place =>
    match m.stores[place]? with
    | none => (none, m)
    | some s => (some (x s).1, { m with stores := m.stores.set place (x s).2 })

end Shared

end ModuleBundler
