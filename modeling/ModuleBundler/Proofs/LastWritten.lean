import ModuleBundler.File.Shared
import ModuleBundler.Proofs.ByteOrder
import ModuleBundler.Proofs.Separation
import ModuleBundler.Proofs.Spelling

/-
  A shared store as a table. Through whichever of its clones a store is used, it holds for each
  stored spelling what was written last under a path with this spelling, at the beginning or by a
  call that succeeded (`Shared.Holds.call`). A clone is one handle more, and a program does through
  it what it does through the handle it was made of (`Shared.Holds.cloned`). So after any calls the
  store answers like the table of what was written (`Shared.answersAsTable_afterCalls`).
-/

namespace ModuleBundler

/-! ## Tables of what was written -/

/-- What was written last under paths with a stored spelling. -/
def lastContent? (written : List (String × ByteArray)) (form : String) : Option ByteArray :=
  (written.reverse.find? fun entry => Store.normalize entry.1 == form).map (·.2)

theorem lastContent?_concat (written : List (String × ByteArray)) (path : String)
    (content : ByteArray) (form : String) :
    lastContent? (written ++ [(path, content)]) form =
      if form = Store.normalize path then some content else lastContent? written form := by
  rw [lastContent?, List.reverse_append, List.reverse_singleton, List.singleton_append,
    List.find?_cons]
  by_cases hform : form = Store.normalize path
  · rw [if_pos hform, beq_iff_eq.2 hform.symm]
    rfl
  · rw [if_neg hform, beq_eq_false_iff_ne.2 (Ne.symm hform)]
    rfl

theorem isSome_lastContent?_iff (written : List (String × ByteArray)) (form : String) :
    (lastContent? written form).isSome = true ↔
      ∃ entry ∈ written, Store.normalize entry.1 = form := by
  simp [lastContent?, Option.isSome_map, List.find?_isSome]

/-- What is read of a path: the content that was written last under its spelling. -/
def lastRead (written : List (String × ByteArray)) (path : String) :
    Except FileError ByteArray :=
  match lastContent? written (Store.normalize path) with
  | some content => .ok content
  | none => .error (.notFound (Store.normalize path))

/-! ## Calls through handles -/

namespace Shared

open Store (Operation fileSystem normalize)

/-- What a program that has handles can do with one of them: clone it, or use it to change the store
behind it. -/
inductive Call where
  | clone (handle : Nat)
  | change (handle : Nat) (op : Operation)

/-- What there is after a call. -/
def call (m : Shared) : Call → Shared
  | .clone handle => m.clone handle
  | .change handle op => (through handle (op.perform fileSystem) m).2

/-- What there is after some calls. -/
def afterCalls (m : Shared) (calls : List Call) : Shared := calls.foldl call m

/-- The file that an operation is to write. -/
def fileOf? : Operation → Option (String × ByteArray)
  | .write path content => some (path, content)
  | .createDirectories _ => none

/-- The file that a call writes: none if it fails. -/
def writtenBy (m : Shared) : Call → List (String × ByteArray)
  | .clone _ => []
  | .change handle op =>
    match (through handle (op.perform fileSystem) m).1 with
    | some (.ok ()) => (fileOf? op).toList
    | _ => []

/-- The files that calls write, in order. -/
def writtenByAll (m : Shared) : List Call → List (String × ByteArray)
  | [] => []
  | c :: calls => m.writtenBy c ++ (m.call c).writtenByAll calls

variable {m : Shared} {s : Store} {handle : Nat} {written files : List (String × ByteArray)}

/-- Whether all handles lead to one store, and it holds what was written last. -/
structure Holds (m : Shared) (s : Store) (written : List (String × ByteArray)) : Prop where
  one_store : m.stores = [s]
  one_place : ∀ place ∈ m.handles, place = 0
  contents : ∀ form, s.files.lookup form = lastContent? written form

/-- A program is run on the one store, if there is the handle. -/
theorem Holds.through_cases {α : Type} (h : m.Holds s written) (handle : Nat) (x : StateM Store α) :
    (m.handles.length ≤ handle ∧ through handle x m = (none, m)) ∨
    (handle < m.handles.length ∧
      through handle x m = (some (x s).1, { m with stores := [(x s).2] })) := by
  unfold through
  rcases Nat.lt_or_ge handle m.handles.length with hlt | hge
  · have hplace := h.one_place _ (List.getElem_mem hlt)
    rw [List.getElem?_eq_getElem hlt, hplace, h.one_store]
    exact Or.inr ⟨hlt, rfl⟩
  · rw [List.getElem?_eq_none hge]
    exact Or.inl ⟨hge, rfl⟩

theorem holds_ofFiles (files : List (String × ByteArray)) :
    (ofFiles files).Holds (Store.ofFiles files) files := by
  refine ⟨rfl, fun place hplace => List.mem_singleton.1 hplace, fun form => ?_⟩
  induction files using List.reverseRecOn with
  | nil => rfl
  | append_singleton files file ih =>
    rw [Store.ofFiles, List.foldl_append, List.foldl_cons, List.foldl_nil, Store.lookup_put,
      lastContent?_concat, ← ih]
    rfl

/-- A clone leads where all handles lead. -/
theorem Holds.clone (h : m.Holds s written) (handle : Nat) : (m.clone handle).Holds s written where
  one_store := h.one_store
  one_place place hplace := by
    rcases List.mem_append.1 hplace with hold | hnew
    · exact h.one_place place hold
    · exact h.one_place place (List.mem_of_getElem? (Option.mem_toList.1 hnew))
  contents := h.contents

theorem Holds.call (h : m.Holds s written) (c : Call) :
    ∃ s', (m.call c).Holds s' (written ++ m.writtenBy c) := by
  cases c with
  | clone handle =>
    rw [writtenBy, List.append_nil]
    exact ⟨s, h.clone handle⟩
  | change handle op =>
    rw [Shared.call, writtenBy]
    rcases h.through_cases handle (op.perform fileSystem) with ⟨-, hrun⟩ | ⟨-, hrun⟩
    · rw [hrun]
      exact ⟨s, h.one_store, h.one_place, by simpa using h.contents⟩
    · rw [hrun]
      -- The operation fails, writes a file or makes a directory; only a file counts as written.
      rcases s.perform_cases op with ⟨e, hop⟩ | ⟨path, content, rfl, -, hop⟩ |
        ⟨path, s', rfl, -, hop, hfiles, -⟩
      · rw [hop]
        exact ⟨s, rfl, h.one_place, by simpa using h.contents⟩
      · rw [hop]
        refine ⟨_, rfl, h.one_place, fun form => ?_⟩
        rw [Store.lookup_put, h.contents]
        exact (lastContent?_concat written path content form).symm
      · rw [hop]
        refine ⟨s', rfl, h.one_place, ?_⟩
        rw [hfiles]
        simpa [fileOf?] using h.contents

theorem Holds.afterCalls (h : m.Holds s written) (calls : List Call) :
    ∃ s', (m.afterCalls calls).Holds s' (written ++ m.writtenByAll calls) := by
  induction calls generalizing m s written with
  | nil =>
    rw [writtenByAll, List.append_nil]
    exact ⟨s, h⟩
  | cons c calls ih =>
    obtain ⟨s', hcall⟩ := h.call c
    rw [writtenByAll, ← List.append_assoc]
    exact ih hcall

/-! ## Answers -/

/-- The paths of all files, as a program on a store. -/
def listing : StateM Store (List String) := return (← get).paths

/-- Whether a shared store answers as a table of what was written, whichever handle it is used
through. -/
structure AnswersAsTable (m : Shared) (written : List (String × ByteArray)) : Prop where
  /-- Two paths are one file if they have one spelling, with slashes for backslashes and without
  those at the end. -/
  spelled : ∀ path form, normalize path = form ↔ Store.Spells form path
  used : 0 < m.handles.length
  /-- A clone of a handle is one handle more, and a program does through it what it does through the
  handle. -/
  cloned : ∀ handle < m.handles.length,
    (m.clone handle).handles.length = m.handles.length + 1 ∧
    ∀ {α : Type} (x : StateM Store α), ∃ answer m',
      through handle x m = (some answer, m') ∧
      through m.handles.length x (m.clone handle) = (some answer, m'.clone handle)
  read : ∀ handle < m.handles.length, ∀ path,
    through handle (fileSystem.read path) m = (some (lastRead written path), m)
  failed : ∀ handle (op : Operation) e,
    (through handle (op.perform fileSystem) m).1 = some (.error e) →
      (through handle (op.perform fileSystem) m).2 = m
  made : ∀ handle path,
    (through handle (fileSystem.createDirectories path) m).2.stores.map (·.files) =
      m.stores.map (·.files)
  /-- Each stored spelling is listed once, in the order of the bytes. -/
  listed : ∀ handle < m.handles.length, ∃ names, through handle listing m = (some names, m) ∧
    (names.map Text.bytes).Pairwise (· < ·) ∧
    ∀ form, form ∈ names ↔ ∃ entry ∈ written, normalize entry.1 = form

theorem Holds.eq_self (h : m.Holds s written) : { m with stores := [s] } = m := by
  rw [← h.one_store]

theorem length_handles_clone (hhandle : handle < m.handles.length) :
    (m.clone handle).handles.length = m.handles.length + 1 := by
  rw [clone, List.getElem?_eq_getElem hhandle, List.length_append]
  rfl

theorem Holds.cloned {α : Type} (h : m.Holds s written) (hhandle : handle < m.handles.length)
    (x : StateM Store α) :
    ∃ answer m', through handle x m = (some answer, m') ∧
      through m.handles.length x (m.clone handle) = (some answer, m'.clone handle) := by
  have hnew : m.handles.length < (m.clone handle).handles.length := by
    rw [length_handles_clone hhandle]
    exact Nat.lt_succ_self _
  have hrun := (h.through_cases handle x).resolve_left fun hno => hno.1.not_gt hhandle
  have hrun' := ((h.clone handle).through_cases m.handles.length x).resolve_left fun hno =>
    hno.1.not_gt hnew
  exact ⟨(x s).1, _, hrun.2, hrun'.2⟩

theorem Holds.read (h : m.Holds s written) (hhandle : handle < m.handles.length) (path : String) :
    through handle (fileSystem.read path) m = (some (lastRead written path), m) := by
  rcases h.through_cases handle (fileSystem.read path) with ⟨hge, -⟩ | ⟨-, hrun⟩
  · exact absurd hhandle (Nat.not_lt.2 hge)
  · have hread : s.read path = lastRead written path := by
      rw [Store.read, h.contents]
      rfl
    have hsame : fileSystem.read path s = (s.read path, s) := rfl
    rw [hrun, hsame, h.eq_self, hread]

theorem Holds.failed (h : m.Holds s written) {op : Operation} {e : FileError}
    (herror : (through handle (op.perform fileSystem) m).1 = some (.error e)) :
    (through handle (op.perform fileSystem) m).2 = m := by
  rcases h.through_cases handle (op.perform fileSystem) with ⟨-, hrun⟩ | ⟨-, hrun⟩
  · rw [hrun]
  · rw [hrun] at herror ⊢
    rcases s.perform_cases op with ⟨e, hop⟩ | ⟨path, content, -, -, hop⟩ |
      ⟨path, s', -, -, hop, -⟩
    · rw [hop]
      exact h.eq_self
    · rw [hop] at herror
      cases herror
    · rw [hop] at herror
      cases herror

theorem Holds.made (h : m.Holds s written) (handle : Nat) (path : String) :
    (through handle (fileSystem.createDirectories path) m).2.stores.map (·.files) =
      m.stores.map (·.files) := by
  rcases h.through_cases handle (fileSystem.createDirectories path) with ⟨-, hrun⟩ | ⟨-, hrun⟩
  · rw [hrun]
  · rw [hrun, h.one_store]
    rcases s.createDirectories_cases path with ⟨file, -, -, hmake⟩ | ⟨-, s', hmake, hfiles, -⟩
    · rw [Store.fileSystem_createDirectories_of_error hmake]
    · rw [Store.fileSystem_createDirectories_of_ok hmake]
      exact congrArg (fun files => [files]) hfiles

theorem Holds.listed (h : m.Holds s written) (hhandle : handle < m.handles.length) :
    through handle listing m = (some s.paths, m) := by
  rcases h.through_cases handle listing with ⟨hge, -⟩ | ⟨-, hrun⟩
  · exact absurd hhandle (Nat.not_lt.2 hge)
  · have hlisting : listing s = (s.paths, s) := rfl
    rw [hrun, hlisting, h.eq_self]

theorem Holds.mem_paths_iff (h : m.Holds s written) (form : String) :
    form ∈ s.paths ↔ ∃ entry ∈ written, normalize entry.1 = form := by
  rw [← Store.holds_iff, Store.holds, h.contents, isSome_lastContent?_iff]

theorem Holds.answersAsTable (h : m.Holds s written) (hused : 0 < m.handles.length) :
    m.AnswersAsTable written where
  spelled _ _ := Store.normalize_eq_iff
  used := hused
  cloned _ hhandle := ⟨length_handles_clone hhandle, h.cloned hhandle⟩
  read _ hhandle path := h.read hhandle path
  failed _ _ _ herror := h.failed herror
  made handle path := h.made handle path
  listed _ hhandle := by
    refine ⟨s.paths, h.listed hhandle, ?_, h.mem_paths_iff⟩
    exact List.pairwise_map.2 (s.ascending.imp Text.bytes_lt)

/-- Calls take no handle away. -/
theorem handles_call_le (m : Shared) (c : Call) : m.handles.length ≤ (m.call c).handles.length := by
  cases c with
  | clone handle => simp [call, clone]
  | change handle op =>
    rw [call, through]
    split
    · exact le_rfl
    · split <;> exact le_rfl

theorem handles_afterCalls_le (m : Shared) (calls : List Call) :
    m.handles.length ≤ (m.afterCalls calls).handles.length := by
  induction calls generalizing m with
  | nil => exact le_rfl
  | cons c calls ih => exact (handles_call_le m c).trans (ih (m.call c))

/-- After any calls through any of its clones, a store answers as the table of what it was given at
the beginning and of what calls wrote. -/
theorem answersAsTable_afterCalls (files : List (String × ByteArray)) (calls : List Call) :
    ((ofFiles files).afterCalls calls).AnswersAsTable
      (files ++ (ofFiles files).writtenByAll calls) := by
  obtain ⟨s, hholds⟩ := (holds_ofFiles files).afterCalls calls
  exact hholds.answersAsTable
    (Nat.lt_of_lt_of_le Nat.one_pos (handles_afterCalls_le (ofFiles files) calls))

end Shared

end ModuleBundler
