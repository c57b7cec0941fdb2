import ModuleBundler.File.System
import ModuleBundler.Path

/-
  Files in memory. A store keeps its files in the order of their paths, in one spelling: slashes
  only, and none at the end. A directory exists if it was made, or if a file lies below it; since
  the files are in order, the first one not before the directory's own prefix decides that.
-/

namespace ModuleBundler

/-! ## Tables in order -/

/-- A table with the value of a key set; keys stay in ascending order. -/
def insertSorted {β : Type} (key : String) (value : β) :
    List (String × β) → List (String × β)
  | [] => [(key, value)]
  | (k, v) :: rest =>
    if key < k then (key, value) :: (k, v) :: rest
    else if key == k then (key, value) :: rest
    else (k, v) :: insertSorted key value rest

theorem mem_keys_insertSorted {β : Type} {key k : String} {value : β}
    {table : List (String × β)} :
    k ∈ (insertSorted key value table).map (·.1) ↔ k = key ∨ k ∈ table.map (·.1) := by
  induction table with
  | nil => simp [insertSorted]
  | cons entry rest ih =>
    obtain ⟨k', v'⟩ := entry
    unfold insertSorted
    split
    · simp
    · split
      · next h => simp only [beq_iff_eq] at h; subst h; simp
      · simp only [List.map_cons, List.mem_cons, ih]
        constructor
        · rintro (h | h | h) <;> simp [h]
        · rintro (h | h | h) <;> simp [h]

theorem insertSorted_ascending {β : Type} (key : String) (value : β)
    {table : List (String × β)} (h : (table.map (·.1)).Pairwise (· < ·)) :
    ((insertSorted key value table).map (·.1)).Pairwise (· < ·) := by
  induction table with
  | nil => simp [insertSorted]
  | cons entry rest ih =>
    obtain ⟨k, v⟩ := entry
    simp only [List.map_cons, List.pairwise_cons] at h
    unfold insertSorted
    split
    · next hk =>
      simp only [List.map_cons, List.pairwise_cons, List.mem_cons]
      refine ⟨?_, h.1, h.2⟩
      rintro a (rfl | ha)
      · exact hk
      · exact String.lt_trans hk (h.1 a ha)
    · next hk =>
      split
      · next he =>
        simp only [beq_iff_eq] at he
        subst he
        simp only [List.map_cons, List.pairwise_cons]
        exact h
      · next he =>
        simp only [beq_iff_eq] at he
        have hlt : k < key := Decidable.byContradiction fun hn =>
          he (String.le_antisymm (String.not_lt.1 hn) (String.not_lt.1 hk))
        simp only [List.map_cons, List.pairwise_cons]
        refine ⟨?_, ih h.2⟩
        intro a ha
        rcases mem_keys_insertSorted.1 ha with rfl | ha
        · exact hlt
        · exact h.1 a ha

/-! ## Stores -/

/-- Files and directories in memory. -/
structure Store where
  /-- The files with their paths, in ascending order. -/
  files : List (String × ByteArray) := []
  /-- The directories that were made. -/
  directories : List String := []
  ascending : (files.map (·.1)).Pairwise (· < ·) := by simp

instance : Inhabited Store := ⟨{}⟩

namespace Store

/-- The one spelling under which a path is stored: slashes only, and none at the end but for the
root. -/
def normalize (path : String) : String :=
  let chars := (Path.withSlashes path).toList
  match (chars.reverse.dropWhile (· == '/')).reverse with
  | [] => if chars.isEmpty then "" else "/"
  | kept => String.ofList kept

/-- The directory above a path in its stored spelling. The root has none, nor has a path without
a slash. -/
def parent? (path : String) : Option String :=
  match Text.splitLast? '/' path.toList with
  | none => none
  | some ([], after) => if after.isEmpty then none else some "/"
  | some (before, _) => some (String.ofList before)

theorem parent?_length {path parent : String} (h : parent? path = some parent) :
    parent.toList.length < path.toList.length := by
  unfold parent? at h
  split at h
  · cases h
  · next after hs =>
    have hp := congrArg List.length (Text.eq_of_splitLast? hs)
    split at h
    · cases h
    · next ha =>
      cases h
      have : 0 < after.length := by
        cases after <;> simp_all
      simp at hp ⊢
      omega
  · next before after _ hs =>
    cases h
    have hp := congrArg List.length (Text.eq_of_splitLast? hs)
    simp at hp ⊢
    omega

/-- A path in its stored spelling and the directories above it, from the inside out. -/
def enclosing (path : String) : List String :=
  match _h : parent? path with
  | none => [path]
  | some parent => path :: enclosing parent
termination_by path.toList.length
decreasing_by exact parent?_length _h

/-- What the paths below a directory begin with. -/
def below (directory : String) : String :=
  if directory.toList.getLast? == some '/' then directory else directory ++ "/"

/-- Whether a file is stored under a stored spelling. -/
def holds (s : Store) (path : String) : Bool := (s.files.lookup path).isSome

/-- Whether a stored spelling names a directory. -/
def holdsDirectory (s : Store) (path : String) : Bool :=
  s.directories.contains path ||
    match s.files.find? (fun file => decide (¬ file.1 < below path)) with
    | some (first, _) => (below path).toList.isPrefixOf first.toList
    | none => false

/-- Puts a file under a stored spelling. -/
def put (s : Store) (path : String) (content : ByteArray) : Store :=
  { s with
    files := insertSorted path content s.files
    ascending := insertSorted_ascending path content s.ascending }

/-- The store of some files; of two under one path the later counts. -/
def ofFiles (files : List (String × ByteArray)) : Store :=
  files.foldl (fun s file => s.put (normalize file.1) file.2) {}

/-- The paths of all files, in ascending order. -/
def paths (s : Store) : List String := s.files.map (·.1)

/-- Whether a file is stored under a path. -/
def isFile (s : Store) (path : String) : Bool := s.holds (normalize path)

/-- Whether a path names a directory. -/
def isDirectory (s : Store) (path : String) : Bool := s.holdsDirectory (normalize path)

/-- The content of a file. -/
def read (s : Store) (path : String) : Except FileError ByteArray :=
  match s.files.lookup (normalize path) with
  | some content => .ok content
  | none => .error (.notFound (normalize path))

/-- The store after a file is written. A directory is not written over. -/
def write (s : Store) (path : String) (content : ByteArray) : Except FileError Store :=
  if s.isDirectory path then .error (.alreadyExists (normalize path))
  else .ok (s.put (normalize path) content)

/-- The store after a directory is made. No file may stand where the directory or one above it is
needed. -/
def createDirectories (s : Store) (path : String) : Except FileError Store :=
  match (enclosing (normalize path)).find? s.holds with
  | some file => .error (.alreadyExists file)
  | none =>
    if s.directories.contains (normalize path) then .ok s
    else .ok { s with directories := normalize path :: s.directories }

/-! ## As a file system -/

/-- Keeps the store as it was where an operation fails. -/
def update (operation : Store → Except FileError Store) : StateM Store (Except FileError Unit) :=
  fun s =>
    match operation s with
    | .ok s' => (.ok (), s')
    | .error e => (.error e, s)

/-- The files of a store that does not change. -/
def toFiles {m : Type → Type} [Monad m] (s : Store) : Files m where
  isFile path := pure (s.isFile path)
  read path := pure (s.read path)
  capacity := pure s.files.length

/-- The file system of a store that changes as it is written to. -/
def fileSystem : FileSystem (StateM Store) where
  isFile path := do return (← get).isFile path
  read path := do return (← get).read path
  capacity := do return (← get).files.length
  isDirectory path := do return (← get).isDirectory path
  write path content := update (·.write path content)
  createDirectories path := update (·.createDirectories path)

end Store

end ModuleBundler
