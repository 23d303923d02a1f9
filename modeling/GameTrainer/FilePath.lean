import GameTrainer.TextSplit

/-!
# File paths

Paths are texts whose parts are separated by slashes; one that begins with a
slash starts at the root. Joining appends a path to a directory and normalises
nothing: `..` stays as it is. The directories that lead to a path are front
parts of its own text.
-/

namespace GameTrainer.FilePath

/-- The path starts at the root. -/
def isAbsolute (path : String) : Bool :=
  path.toList.head? = some '/'

/-- The path ends in a slash, and so can only mean a directory. -/
def endsInSlash (path : String) : Bool :=
  path.toList.getLast? = some '/'

/-- A path inside a directory. An absolute path stands for itself, and a slash
is put between the two where one is needed. -/
def join (directory path : String) : String :=
  if isAbsolute path then path
  else if directory.isEmpty || endsInSlash directory then directory ++ path
  else directory ++ "/" ++ path

/-- The texts between the slashes of a path, empty ones too. -/
def pieces (path : String) : List String :=
  (Text.splitAll '/' path.toList).map String.ofList

/-- The names that a path goes through, with `.` and `..` among them. -/
def parts (path : String) : List String :=
  (pieces path).filter (· ≠ "")

/-- A piece that leads nowhere: an empty one, or a single point. -/
def isIdle (piece : String) : Bool :=
  piece = "" || piece = "."

/-- The rows of pieces that end in a piece that leads somewhere, given from the
last piece back; the longest row first. -/
def rowsToNames : List String → List (List String)
  | [] => []
  | piece :: above =>
    if isIdle piece then rowsToNames above else (piece :: above) :: rowsToNames above

/-- The first piece of a path, if it is not a name on the way: the empty one
before the slash of the root, or the point for the working directory. -/
def front (path : String) : List String :=
  (pieces path).take 1 |>.filter fun piece => isAbsolute path || piece = "."

/-- The path with the front of another one, over pieces given from the last back. -/
def withFront (path : String) (row : List String) : String :=
  let text := "/".intercalate (front path ++ row.reverse)
  if isAbsolute path && row.isEmpty then "/" else text

/-- The directories that lead to a path, from the nearest one up. They are front
parts of the path's text that end in a name. The root, or the point at the front
of the path, is the last one; the working directory without a name is not listed. -/
def directories (path : String) : List String :=
  match rowsToNames ((pieces path).drop (front path).length).reverse with
  | [] => []
  | _ :: above => ((above ++ [[]]).map (withFront path)).filter (· ≠ "")

end GameTrainer.FilePath
