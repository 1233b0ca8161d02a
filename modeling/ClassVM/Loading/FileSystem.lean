import ClassVM.Binary.Reader
import ClassVM.Text.Split

namespace ClassVM

/-- What can be asked about files. Why a file cannot be read is told if the system gives a reason. -/
structure FileSystem where
  readFile : String → Except (Option String) Bytes
  isDirectory : String → Bool

namespace Path

/-- The path of `name` in the directory `base`. An absolute name stands for itself. -/
def join (base name : String) : String :=
  if name.startsWith "/" then name
  else if base.isEmpty || base.endsWith "/" then base ++ name
  else base ++ "/" ++ name

/-- Longer paths, in bytes, name nothing. -/
def maxLength : Nat := 4095

def parts (path : String) : List String := (Text.splitChars '/' path.toList).map String.ofList

end Path

/-- A file with its content, or a directory. -/
inductive FileTree where
  | file (content : Bytes)
  | directory (entries : List (String × FileTree))

namespace FileTree

def empty : FileTree := directory []

def entries : FileTree → List (String × FileTree)
  | file _ => []
  | directory entries => entries

def content? : FileTree → Option Bytes
  | file content => some content
  | directory _ => none

/-- Puts a file, or a directory if there is no content, at the end of a chain of directories, which
are made where they are missing. -/
def insert : List String → Option Bytes → FileTree → FileTree
  | [], some content, _ => file content
  | [], none, tree => directory tree.entries
  | name :: names, content, tree =>
    let below := ((tree.entries.lookup name).getD empty).insert names content
    directory ((name, below) :: tree.entries.filter (·.1 ≠ name))

/-- Where names lead from the last of `trail`, which holds a place and the directories above it. The
root is above itself, and a file has nothing below it, not even itself. -/
def follow : List FileTree → List String → Option FileTree
  | [], _ => none
  | here :: _, [] => some here
  | file _ :: _, _ :: _ => none
  | directory entries :: above, name :: names =>
    if name = "" ∨ name = "." then follow (directory entries :: above) names
    else if name = ".." then
      if above = [] then follow [directory entries] names else follow above names
    else
      match entries.lookup name with
      | none => none
      | some next => follow (next :: directory entries :: above) names

/-- What a path names; one that is not absolute starts in the directory `current`. -/
def find? (root : FileTree) (current : List String) (path : String) : Option FileTree :=
  if path.isEmpty || Path.maxLength < path.utf8ByteSize then none
  else if path.startsWith "/" then follow [root] (Path.parts path)
  else follow [root] (current ++ Path.parts path)

/-- The tree as seen from the directory `current`. It gives no reasons. -/
def toFileSystem (root : FileTree) (current : List String) : FileSystem where
  readFile path :=
    match (find? root current path).bind content? with
    | some content => .ok content
    | none => .error none
  isDirectory path :=
    match find? root current path with
    | some (directory _) => true
    | _ => false

end FileTree
end ClassVM
