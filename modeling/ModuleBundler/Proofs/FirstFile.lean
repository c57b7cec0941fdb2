import ModuleBundler.Proofs.ByteOrder
import ModuleBundler.Proofs.Spelling

/-
  How a directory is found. One file is looked at: the first one in the order of bytes that is not
  in front of what the paths below the directory begin with (`IsFirstFrom`). Since nothing else
  comes between texts with one beginning, it is below the directory if any file is, whatever names
  stand beside the directory. So the one file gives the answer of all files
  (`tellsDirectory_isDirectory`).
-/

namespace ModuleBundler.Store

open Text (bytes)

variable {s : Store} {p bound first other : String}

/-- What the paths below a stored spelling begin with: the spelling and a slash, but the root has
only its own slash. -/
def frontOf (p : String) : String := if p = "/" then "/" else p ++ "/"

theorem below_eq_frontOf (h : IsSpelling p) : below p = frontOf p := by
  apply String.toList_injective
  rw [toList_below h, frontOf]
  split
  · rfl
  · rw [String.toList_append]
    rfl

/-- Whether a file is the first one, in the order of bytes, that is not in front of a text. -/
structure IsFirstFrom (s : Store) (bound first : String) : Prop where
  mem : first ∈ s.paths
  behind : ¬ bytes first < bytes bound
  least : ∀ file ∈ s.paths, ¬ bytes file < bytes bound → ¬ bytes file < bytes first

theorem IsFirstFrom.unique (h : s.IsFirstFrom bound first) (h' : s.IsFirstFrom bound other) :
    first = other := by
  have hle := h'.least first h.mem h.behind
  have hge := h.least other h'.mem h'.behind
  rw [Text.bytes_lt_iff] at hle hge
  exact String.le_antisymm (String.not_lt.1 hge) (String.not_lt.1 hle)

theorem isFirstFrom_of_find?
    (h : s.paths.find? (fun file => decide (¬ file < bound)) = some first) :
    s.IsFirstFrom bound first := by
  refine ⟨List.mem_of_find?_eq_some h, ?_, fun file hfile hbound => ?_⟩
  · rw [Text.bytes_lt_iff]
    simpa using List.find?_some h
  · rw [Text.bytes_lt_iff] at hbound ⊢
    exact not_lt_of_find? h hfile hbound

/-- The search from the front on stops at the first file that is not in front of a text. -/
theorem find?_paths_eq_some_iff :
    s.paths.find? (fun file => decide (¬ file < bound)) = some first ↔
      s.IsFirstFrom bound first := by
  refine ⟨isFirstFrom_of_find?, fun h => ?_⟩
  cases hfind : s.paths.find? (fun file => decide (¬ file < bound)) with
  | none =>
    have hskipped := List.find?_eq_none.1 hfind first h.mem
    rw [decide_eq_true_eq, ← Text.bytes_lt_iff] at hskipped
    exact absurd h.behind hskipped
  | some found => rw [(isFirstFrom_of_find? hfind).unique h]

/-- The one file that is looked at. -/
theorem holdsDirectory_iff_first : s.holdsDirectory p = true ↔ p ∈ s.directories ∨
    ∃ file, s.IsFirstFrom (below p) file ∧ bytes (below p) <+: bytes file := by
  simp only [holdsDirectory_iff_find?, find?_paths_eq_some_iff, Text.bytes_prefix_iff]

/-- Whether an answer tells if a stored spelling names a directory: one that was made, or one that a
file is below. For the latter it is enough to look at the first file that is not in front. -/
structure TellsDirectory (s : Store) (p : String) (answer : Bool) : Prop where
  by_first : answer = true ↔ p ∈ s.directories ∨
    ∃ file, s.IsFirstFrom (frontOf p) file ∧ bytes (frontOf p) <+: bytes file
  by_all : answer = true ↔ p ∈ s.directories ∨
    ∃ file ∈ s.paths, bytes (frontOf p) <+: bytes file

theorem tellsDirectory_holdsDirectory (h : IsSpelling p) :
    s.TellsDirectory p (s.holdsDirectory p) where
  by_first := by
    rw [← below_eq_frontOf h]
    exact holdsDirectory_iff_first
  by_all := by
    simp only [← below_eq_frontOf h, Text.bytes_prefix_iff]
    exact holdsDirectory_iff

/-- Whatever a store holds, the question whether a path is a directory is answered by the first file
from its front on as by all files. -/
theorem tellsDirectory_isDirectory (s : Store) (path : String) :
    s.TellsDirectory (normalize path) (s.isDirectory path) :=
  tellsDirectory_holdsDirectory (isSpelling_normalize path)

/-- Names in front of and behind the files of the directory `a`, and one of more bytes. -/
def neighbourStore : Store :=
  .ofFiles [("a-b", .empty), ("a.b", .empty), ("a/é", .empty), ("aé/b", .empty)]

example : ["a", "a\\", "a.", "a-", "aé", "a/é"].map neighbourStore.isDirectory =
    [true, true, false, false, true, false] := by
  decide +kernel

end ModuleBundler.Store
