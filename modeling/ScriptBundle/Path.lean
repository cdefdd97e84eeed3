/-!
# File paths

A path is text whose parts are separated by slashes.  Empty parts and parts
that name the directory they stand in do not change where a path leads, save for
a leading one: an empty first part makes the path absolute, and a leading `.` is
kept as it is.
-/

namespace ScriptBundle

structure Path where
  text : String
  deriving DecidableEq, Repr, Inhabited

namespace Path

/-- The text between slashes. -/
abbrev Segment := List Char

/-- Splits at every slash, so there is one segment more than slashes. -/
def splitSlashes : List Char → List Segment
  | [] => [[]]
  | char :: chars =>
      if char = '/' then [] :: splitSlashes chars
      else
        match splitSlashes chars with
        | [] => [[char]]
        | segment :: segments => (char :: segment) :: segments

def joinSlashes : List Segment → List Char
  | [] => []
  | [segment] => segment
  | segment :: segments => segment ++ '/' :: joinSlashes segments

theorem joinSlashes_splitSlashes (chars : List Char) :
    joinSlashes (splitSlashes chars) = chars := by
  induction chars with
  | nil => rfl
  | cons char chars ih =>
      have hnonempty : splitSlashes chars ≠ [] := by
        cases chars with
        | nil => simp [splitSlashes]
        | cons head tail =>
            simp only [splitSlashes]
            split
            · simp
            · split <;> simp
      cases hsplit : splitSlashes chars with
      | nil => exact absurd hsplit hnonempty
      | cons segment segments =>
          rw [hsplit] at ih
          by_cases hslash : char = '/'
          · simp [splitSlashes, hslash, hsplit, joinSlashes, ih]
          · cases segments with
            | nil => simpa [splitSlashes, hslash, hsplit, joinSlashes] using ih
            | cons second rest =>
                simp only [splitSlashes, hslash, hsplit, if_false, joinSlashes,
                  List.cons_append, List.cons.injEq, true_and]
                simpa [joinSlashes] using ih

def segments (path : Path) : List Segment :=
  splitSlashes path.text.toList

def ofSegments (segments : List Segment) : Path :=
  ⟨String.ofList (joinSlashes segments)⟩

@[simp]
theorem ofSegments_segments (path : Path) : ofSegments path.segments = path := by
  simp [ofSegments, segments, joinSlashes_splitSlashes]

def isAbsolute (path : Path) : Bool :=
  path.text.toList.head? = some '/'

/-- A segment that does not change where a path leads. -/
def isIdle (segment : Segment) : Bool :=
  segment = [] ∨ segment = ['.']

/-- Drops the idle segments at the end, never the first segment. -/
def trimIdle : List Segment → List Segment
  | [] => []
  | first :: rest => first :: (rest.reverse.dropWhile isIdle).reverse

/-- The parts that matter, in order; the root is the part `/`. -/
def components (path : Path) : List String :=
  match path.segments with
  | [] => []
  | first :: rest =>
      let kept := (rest.filter fun segment => !isIdle segment).map String.ofList
      if path.isAbsolute then "/" :: kept
      else if first = [] then kept
      else String.ofList first :: kept

/-- The segments before the last one and the last one itself, if the path ends
in a name. -/
def splitName? (path : Path) : Option (List Segment × Segment) :=
  let trimmed := trimIdle path.segments
  match trimmed.getLast? with
  | none => none
  | some name =>
      if isIdle name ∨ name = ['.', '.'] then none else some (trimmed.dropLast, name)

/-- The last part, if it is a name. -/
def fileName? (path : Path) : Option String :=
  path.splitName?.map fun split => String.ofList split.2

/-- A file name up to its last dot.  A leading dot belongs to the stem. -/
def stem (name : Segment) : Segment :=
  match name.reverse.dropWhile (· ≠ '.') with
  | [] => name
  | [_] => name
  | _ :: before => before.reverse

/-- Gives the name the extension `extension` in place of its own.  A path without
a name is left as it is. -/
def withExtension (path : Path) (extension : String) : Path :=
  match path.splitName? with
  | none => path
  | some (before, name) => ofSegments (before ++ [stem name ++ '.' :: extension.toList])

/-- Removes the extension and the dot in front of it.  Where a single dot would be
left at the end of the path, the dot in front of the extension stays, too. -/
def withoutExtension (path : Path) : Path :=
  match path.splitName? with
  | none => path
  | some (before, name) =>
      if stem name = ['.'] ∧ path.segments = before ++ [name] then
        ofSegments (before ++ [['.', '.']])
      else ofSegments (before ++ [stem name])

/-- The path without its last part; nothing stands above the root or above the
empty path. -/
def parent? (path : Path) : Option Path :=
  match trimIdle path.segments with
  | [] => none
  | [[]] => none
  | trimmed =>
      match trimIdle trimmed.dropLast with
      | [[]] => some ⟨"/"⟩
      | above => some (ofSegments above)

/-- `child` below `path`; an absolute child stands on its own. -/
def join (path child : Path) : Path :=
  if child.isAbsolute then child
  else if path.text = "" ∨ path.text.toList.getLast? = some '/' then ⟨path.text ++ child.text⟩
  else ⟨path.text ++ "/" ++ child.text⟩

instance : HDiv Path String Path := ⟨fun path child => path.join ⟨child⟩⟩

instance : ToString Path := ⟨Path.text⟩

/-- `path` and the paths above it, nearest first.  Each step drops at least one
segment, so there are no more of them than segments. -/
def ancestors (path : Path) : List Path :=
  go path.segments.length path
where
  go : Nat → Path → List Path
    | 0, path => [path]
    | left + 1, path =>
        match path.parent? with
        | none => [path]
        | some above => path :: go left above

end Path

end ScriptBundle
