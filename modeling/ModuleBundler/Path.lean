import ModuleBundler.Text.Pieces

/-
  Paths with slashes. A path is kept as it was written; what two paths have in common, where one
  lies inside another, and where a relative one leads is decided on its segments.
-/

namespace ModuleBundler.Path

/-- Whether a path starts at the root. -/
def isAbsolute (p : String) : Bool := p.toList.head? == some '/'

/-- The parts of a path between its slashes, empty ones included. -/
def segments (p : String) : List String := (Text.splitOn '/' p.toList).map String.ofList

/-- Segments with slashes between them. -/
def ofSegments (names : List String) : String := "/".intercalate names

/-- A path with slashes in place of backslashes. -/
def withSlashes (p : String) : String :=
  String.ofList (p.toList.map fun c => if c == '\\' then '/' else c)

/-- A path inside another. An absolute path is taken as it is; joining nothing ends the path with
a slash. -/
def join (base p : String) : String :=
  if isAbsolute p || base.isEmpty then p
  else if base.toList.getLast? == some '/' then base ++ p
  else base ++ "/" ++ p

/-! ## Clean paths -/

/-- One segment after the segments of a clean path, which are given last first. An empty segment
and a dot lead nowhere, two dots lead out of the last name. -/
def walk (stack : List String) (segment : String) : List String :=
  if segment == "" || segment == "." then stack
  else if segment == ".." then
    match stack with
    | [] => [".."]
    | top :: below => if top == ".." then ".." :: stack else below
  else segment :: stack

/-- The segments of the clean path that leads to the same place: first the steps out of the
starting directory, then the names. -/
def cleanSegments (p : String) : List String := ((segments p).foldl walk []).reverse

/-- The clean form of a path that leads to something inside the directory it starts from. There is
none for a path that starts at the root, leads back to the directory itself, or leaves it. -/
def cleanRelative? (p : String) : Option String :=
  let p := withSlashes p
  if isAbsolute p then none
  else
    match cleanSegments p with
    | [] => none
    | first :: names => if first == ".." then none else some (ofSegments (first :: names))

/-! ## Components -/

/-- The parts of a path that count when paths are compared: the root, a dot at the very front, and
the names. -/
def components (p : String) : List String :=
  let names := (segments p).filter fun s => s != "" && s != "."
  if isAbsolute p then "/" :: names
  else if (segments p).head? == some "." then "." :: names
  else names

/-- The rest of a path inside a directory, or `none` if it lies outside. -/
def inside? (directory p : String) : Option String :=
  if (components directory).isPrefixOf (components p) then
    match (components p).drop (components directory).length with
    | [] => some ""
    | first :: names =>
      some (if first == "/" then "/" ++ ofSegments names else ofSegments (first :: names))
  else none

/-- Segments without the empty ones and the dots at their end. -/
def trimSegments (names : List String) : List String :=
  (names.reverse.dropWhile fun s => s == "" || s == ".").reverse

/-- The directory that holds what a path names, or `none` for the root and the empty path. The
text in front of the last name is kept, up to slashes and dots at its end. -/
def parent? (p : String) : Option String :=
  let chars := p.toList
  let isDot := chars == ['.'] || ['.', '/'].isPrefixOf chars
  let lead := if isAbsolute p then "/" else if isDot then "." else ""
  let body := String.ofList (chars.drop lead.length)
  match trimSegments (segments body) with
  | [] => if isDot then some "" else none
  | names => some (lead ++ ofSegments (trimSegments names.dropLast))

/-! ## Names -/

/-- The text before the last slash, or nothing. -/
def directory (p : String) : String :=
  match Text.splitLast? '/' p.toList with
  | some (before, _) => String.ofList before
  | none => ""

/-- The text after the last slash. -/
def fileName (p : String) : String :=
  match Text.splitLast? '/' p.toList with
  | some (_, after) => String.ofList after
  | none => p

/-- A file name without its extension. A dot at the front begins no extension. -/
def stem (name : String) : String :=
  match Text.splitLast? '.' name.toList with
  | some ([], _) => name
  | some (before, _) => String.ofList before
  | none => name

end ModuleBundler.Path
