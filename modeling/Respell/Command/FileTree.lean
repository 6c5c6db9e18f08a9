/-! # File trees -/

namespace Respell.Command

/-- The names on the way from the root to a file or a directory. -/
abbrev Path := List String

/-- Files with their contents, directories that may hold none of them, and the directory that
relative path names start from. -/
structure FileTree where
  files : List (Path × List UInt8) := []
  directories : List Path := []
  working : Path := []
  deriving Repr, DecidableEq

/-- Why a file cannot be read or written. -/
inductive FileFault where
  | missing
  | isDirectory
  | notDirectory
  | undecodable
  deriving Repr, DecidableEq

def FileFault.message : FileFault → String
  | missing => "No such file or directory (os error 2)"
  | isDirectory => "Is a directory (os error 21)"
  | notDirectory => "Not a directory (os error 20)"
  | undecodable => "stream did not contain valid UTF-8"

/-- What a path leads to. -/
inductive Kind where
  | file (bytes : List UInt8)
  | directory
  deriving Repr, DecidableEq

namespace FileTree

/-- The paths that cannot exist without the directories on their way. -/
def paths (tree : FileTree) : List Path :=
  tree.working :: tree.directories ++ tree.files.map (·.1.dropLast)

/-- What a path leads to. The way to a file leads through directories, up to the root. -/
def kind? (tree : FileTree) (path : Path) : Option Kind :=
  match tree.files.lookup path with
  | some bytes => some (.file bytes)
  | none => if tree.paths.any path.isPrefixOf then some .directory else none

/-- The names in a path name. -/
def names (path : String) : List String := (path.toList.splitOn '/').map String.ofList

/-- Where a walk along a path name starts. -/
def origin (tree : FileTree) (path : String) : Path :=
  if path.toList.head? = some '/' then [] else tree.working

/-- One step of a walk. Only a directory can be left, even to stay in place. -/
def step (tree : FileTree) (path : Path) (name : String) : Except FileFault Path :=
  match tree.kind? path with
  | none => .error .missing
  | some (.file _) => .error .notDirectory
  | some .directory =>
      if name = "" ∨ name = "." then .ok path
      else if name = ".." then .ok path.dropLast
      else .ok (path ++ [name])

/-- The path that a path name stands for, without its last name. -/
def parent (tree : FileTree) (path : String) : Except FileFault Path :=
  (names path).dropLast.foldlM tree.step (tree.origin path)

/-- The contents of the file that a path name leads to. -/
def read (tree : FileTree) (path : String) : Except FileFault (List UInt8) := do
  if path = "" then throw .missing
  let path ← (names path).foldlM tree.step (tree.origin path)
  match tree.kind? path with
  | none => throw .missing
  | some .directory => throw .isDirectory
  | some (.file bytes) => return bytes

/-- A path name leads to a file or a directory. -/
def reaches (tree : FileTree) (path : String) : Bool :=
  match tree.read path with
  | .ok _ | .error .isDirectory => true
  | .error _ => false

/-- The path name without the slashes at its end. -/
def withoutSlashes (path : String) : String :=
  String.ofList (path.toList.reverse.dropWhile (· == '/')).reverse

/-- The path of the file that would be written under a path name. A path name with a slash at its
end stands for a directory. -/
def target (tree : FileTree) (path : String) : Except FileFault Path := do
  if path = "" then throw .missing
  let plain := withoutSlashes path
  let start ← tree.parent plain
  let path' ← tree.step start ((names plain).getLast?.getD "")
  if plain ≠ path ∨ tree.kind? path' = some .directory then throw .isDirectory
  return path'

/-- Gives a file new contents, and adds it if it is not there. -/
def put (tree : FileTree) (path : Path) (bytes : List UInt8) : FileTree :=
  if tree.files.any (·.1 = path) then
    { tree with
      files := tree.files.map fun file => if file.1 = path then (path, bytes) else file }
  else { tree with files := tree.files ++ [(path, bytes)] }

/-- Writes a file under a path name. -/
def write (tree : FileTree) (path : String) (bytes : List UInt8) : Except FileFault FileTree := do
  let target ← tree.target path
  return tree.put target bytes

end FileTree

end Respell.Command
