import GameTrainer.FileFault
import GameTrainer.FilePath
import GameTrainer.ItemCodec

/-!
# Files

`FileAccess` is what the rest of the library needs of a file system: reading and
writing whole files, asking whether something is there, and making directories.
`FileTree` is a file system as a value, a tree of names below a root with a
working directory in it. Paths are followed name by name, and each name but the
last has to be a directory.
-/

namespace GameTrainer

/-- Access to files by their paths. -/
class FileAccess (m : Type → Type) where
  /-- The content of a file. -/
  readBytes : String → m (Except FileFault Bytes)
  /-- Make a file or exchange its content. -/
  writeBytes : String → Bytes → m (Except FileFault Unit)
  /-- Something stands at the path. -/
  fileExists : String → m Bool
  /-- Make the directory that holds the path, and all that lead to it. -/
  createParents : String → m (Except FileFault Unit)

/-- The text of bytes in UTF-8. -/
def decodeText (content : Bytes) : Except FileFault String :=
  match String.fromUTF8? ⟨content⟩ with
  | some text => .ok text
  | none => .error .notText

/-- The bytes of a text in UTF-8. -/
def encodeText (text : String) : Bytes := text.toUTF8.data

/-- The content of a text file. -/
def readText {m : Type → Type} [Monad m] [FileAccess m] (path : String) :
    m (Except FileFault String) := do
  return (← FileAccess.readBytes path).bind decodeText

/-- What stands at a place of a tree. -/
inductive FileNode where
  | file (content : Bytes)
  | directory
  deriving DecidableEq, Repr

/-- A file system. The root is a directory and is not listed. -/
structure FileTree where
  /-- What stands at each place below the root, given by the names that lead to it. -/
  nodes : List (List String × FileNode) := []
  /-- The directory where relative paths start. -/
  workingDirectory : List String := []
  deriving Repr

namespace FileTree

/-- What stands at a place. -/
def node? (tree : FileTree) (place : List String) : Option FileNode :=
  if place = [] then some .directory else tree.nodes.lookup place

/-- The tree with something put at a place. -/
def insert (tree : FileTree) (place : List String) (node : FileNode) : FileTree :=
  { tree with nodes := (place, node) :: tree.nodes.filter fun entry => entry.1 ≠ place }

/-! ## Following paths -/

/-- The longest name that a file can have, in bytes. -/
def nameLimit : Nat := 255

/-- The longest path that can be followed, in bytes. -/
def pathLimit : Nat := 4095

/-- What has a name in a directory. -/
def child (tree : FileTree) (place : List String) (name : String) : Except FileFault FileNode :=
  if nameLimit < name.utf8ByteSize then .error .nameTooLong
  else
    match tree.node? (place ++ [name]) with
    | some node => .ok node
    | none => .error .notFound

/-- The directory that a name in a directory leads to. -/
def enter (tree : FileTree) (place : List String) (name : String) :
    Except FileFault (List String) :=
  if name = "." then .ok place
  else if name = ".." then .ok place.dropLast
  else
    match tree.child place name with
    | .ok .directory => .ok (place ++ [name])
    | .ok (.file _) => .error .notADirectory
    | .error fault => .error fault

/-- Follow names through directories. -/
def follow (tree : FileTree) (place : List String) (names : List String) :
    Except FileFault (List String) :=
  names.foldlM tree.enter place

/-- Where the names of a path start. -/
def start (tree : FileTree) (path : String) : List String :=
  if FilePath.isAbsolute path then [] else tree.workingDirectory

/-- What the last name of a path means. -/
inductive Target where
  /-- A name in a directory; whether it is taken is open. -/
  | name (place : List String) (last : String)
  /-- The root, the directory itself, or the one above. -/
  | directory
  deriving DecidableEq, Repr

/-- Follow a path up to its last name. -/
def locate (tree : FileTree) (path : String) : Except FileFault Target :=
  if path.toList.contains '\x00' then .error .nulInPath
  else if path.isEmpty then .error .notFound
  else if pathLimit < path.utf8ByteSize then .error .nameTooLong
  else
    match (FilePath.parts path).getLast? with
    | none => .ok .directory
    | some last =>
      (tree.follow (tree.start path) (FilePath.parts path).dropLast).map fun place =>
        if last = "." || last = ".." then .directory else .name place last

/-- What stands at a path. A slash at the end asks for a directory. -/
def find (tree : FileTree) (path : String) : Except FileFault FileNode := do
  match ← tree.locate path with
  | .directory => return .directory
  | .name place last =>
    match ← tree.child place last with
    | .directory => return .directory
    | .file content =>
      if FilePath.endsInSlash path then .error .notADirectory else return .file content

/-! ## Files -/

/-- Something stands at a path. -/
def contains (tree : FileTree) (path : String) : Bool :=
  (tree.find path).isOk

/-- The content of a file. -/
def read (tree : FileTree) (path : String) : Except FileFault Bytes := do
  match ← tree.find path with
  | .file content => return content
  | .directory => .error .isADirectory

/-- The tree with the content of a file made or exchanged. A path with a slash at
its end is refused before its last name is looked at. -/
def write (tree : FileTree) (path : String) (content : Bytes) : Except FileFault FileTree := do
  match ← tree.locate path with
  | .directory => .error .isADirectory
  | .name place last =>
    if FilePath.endsInSlash path then .error .isADirectory
    else
      match tree.child place last with
      | .ok .directory => .error .isADirectory
      | .ok (.file _) | .error .notFound => return tree.insert (place ++ [last]) (.file content)
      | .error fault => .error fault

/-! ## Directories -/

/-- A directory stands at a path. -/
def isDirectory (tree : FileTree) (path : String) : Bool :=
  match tree.find path with
  | .ok .directory => true
  | _ => false

/-- The tree with a new directory. -/
def createDirectory (tree : FileTree) (path : String) : Except FileFault FileTree := do
  match ← tree.locate path with
  | .directory => .error .alreadyExists
  | .name place last =>
    match tree.child place last with
    | .ok _ => .error .alreadyExists
    | .error .notFound => return tree.insert (place ++ [last]) .directory
    | .error fault => .error fault

/-- Make a directory that may be there already. -/
def ensureDirectory (tree : FileTree) (path : String) : Except FileFault FileTree :=
  match tree.createDirectory path with
  | .ok made => .ok made
  | .error fault => if tree.isDirectory path then .ok tree else .error fault

/-- Make the first of some directories, and before it those that lead to it, which
follow it, where they are missing. A failure keeps what was made until then. -/
def ensureDirectories (tree : FileTree) : List String → Except FileFault Unit × FileTree
  | [] => (.ok (), tree)
  | path :: above =>
    let settle (tree : FileTree) : Except FileFault Unit × FileTree :=
      match tree.ensureDirectory path with
      | .ok made => (.ok (), made)
      | .error fault => (.error fault, tree)
    match tree.createDirectory path with
    | .error .notFound =>
      match ensureDirectories tree above with
      | (.ok (), made) => settle made
      | failed => failed
    | _ => settle tree

/-- Make all directories that lead to a path. -/
def createParents (tree : FileTree) (path : String) : Except FileFault Unit × FileTree :=
  tree.ensureDirectories (FilePath.directories path)

end FileTree

instance : FileAccess (StateM FileTree) where
  readBytes path := fun tree => (tree.read path, tree)
  writeBytes path content := fun tree =>
    match tree.write path content with
    | .ok written => (.ok (), written)
    | .error fault => (.error fault, tree)
  fileExists path := fun tree => (tree.contains path, tree)
  createParents path := fun tree => tree.createParents path

/-- A computation goes on from what its first part gives, in the state that this part leaves. -/
theorem bind_apply {State α β : Type} (first : StateM State α) (next : α → StateM State β)
    (state : State) : (first >>= next) state = next (first state).1 (first state).2 := rfl

end GameTrainer
