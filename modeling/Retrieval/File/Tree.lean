import Retrieval.File.Problem
import Retrieval.Text.Class

namespace Retrieval

/-- Files under the names that lead to them from the root, and the directory that relative paths
start from. The directories are those that hold a file or lead to the working directory. -/
structure FileTree where
  files : List (List String × List UInt8)
  working : List String := []

namespace FileTree

def names (path : String) : List String :=
  let pieces := (Text.splitWhere (· == '/') path.toList).map String.ofList
  let last := if path.endsWith "/" then ["."] else []
  pieces.filter (· ≠ "") ++ last

def file? (t : FileTree) (place : List String) : Option (List UInt8) :=
  t.files.lookup place

def isDirectory (t : FileTree) (place : List String) : Bool :=
  (place.isPrefixOf t.working || t.files.any fun f => place.isPrefixOf f.1) &&
    (t.file? place).isNone

def longestName : Nat := 255

def longestPath : Nat := 4095

def step (t : FileTree) (place : List String) (name : String) :
    Except FileProblem (List String) :=
  if !t.isDirectory place then .error .notDirectory
  else if name = "." then .ok place
  else if name = ".." then .ok place.dropLast
  else if longestName < name.utf8ByteSize then .error .nameTooLong
  else
    let inner := place ++ [name]
    if t.isDirectory inner || (t.file? inner).isSome then .ok inner else .error .missing

def walk (t : FileTree) (path : String) : Except FileProblem (List String) :=
  if path.isEmpty then .error .missing
  else if longestPath < path.utf8ByteSize then .error .nameTooLong
  else
    let start := if path.startsWith "/" then [] else t.working
    (names path).foldlM t.step start

def read (t : FileTree) (path : String) : Except FileProblem (List UInt8) := do
  let place ← t.walk path
  match t.file? place with
  | some bytes => pure bytes
  | none => throw .directory

end FileTree

end Retrieval
