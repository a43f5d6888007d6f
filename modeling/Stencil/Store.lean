import Stencil.Error
import Stencil.Text.Search
import Stencil.Text.Utf8

/-!
# Stores

Where the texts of included templates come from: a table, a tree of files, or a function. A path into
a tree may step up out of its root, but what lies outside of the tree is not known.
-/
namespace Stencil

/-- Files and directories below the place that holds the root of a store, by their names from there
on. A directory also exists where something lies below it. -/
structure FileTree where
  files : List (List String × ByteArray) := []
  directories : List (List String) := []

namespace FileTree

def root : List String := ["root"]

/-- The parts of a path, between slashes. -/
def parts (path : String) : List String :=
  (Text.splitAt '/' [] path.toList).map String.ofList

/-- The place that a path names, `..` going up by one directory. -/
def place (path : String) : List String :=
  (parts path).foldl (fun place part =>
    if part = "" || part = "." then place
    else if part = ".." then place.dropLast
    else place ++ [part]) root

def addFile (path : String) (bytes : ByteArray) (tree : FileTree) : FileTree :=
  { tree with files := (place path, bytes) :: tree.files.filter (·.1 ≠ place path) }

def addDirectory (path : String) (tree : FileTree) : FileTree :=
  { tree with directories := place path :: tree.directories }

def file? (place : List String) (tree : FileTree) : Option ByteArray :=
  (tree.files.find? (·.1 = place)).map Prod.snd

def isDirectory (place : List String) (tree : FileTree) : Bool :=
  place.isPrefixOf root || tree.directories.any place.isPrefixOf ||
    tree.files.any fun file => place.isPrefixOf file.1.dropLast

def isDirectoryFault : StoreFault := .unreadable "Is a directory (os error 21)"

def notDirectoryFault : StoreFault := .unreadable "Not a directory (os error 20)"

def longNameFault : StoreFault := .unreadable "File name too long (os error 36)"

def nulFault : StoreFault := .unreadable "file name contained an unexpected NUL byte"

def maxNameLength : Nat := 255

/-- One step on the way along a path; `none` is a directory outside of the tree. -/
def step (tree : FileTree) (place : Option (List String)) (part : String) :
    Except StoreFault (Option (List String)) :=
  if place.any fun place => (tree.file? place).isSome then .error notDirectoryFault
  else if part = "" || part = "." then .ok place
  else if part = ".." then
    .ok (place.bind fun place => if place.isEmpty then none else some place.dropLast)
  else if maxNameLength < part.utf8ByteSize then .error longNameFault
  else match place with
    | none => .error .notFound
    | some place =>
      let next := place ++ [part]
      if (tree.file? next).isSome || tree.isDirectory next then .ok (some next)
      else .error .notFound

/-- The bytes of the file at a path from the root. A path that begins with a slash does not start
at the root. -/
def read (tree : FileTree) (path : String) : Except StoreFault ByteArray :=
  if '\x00' ∈ path.toList then .error nulFault
  else do
    let start := if path.toList.head? = some '/' then none else some root
    let place ← (parts path).foldlM tree.step start
    match place.bind tree.file? with
    | some bytes => return bytes
    | none => throw isDirectoryFault

end FileTree

inductive Store where
  | memory (templates : List (String × ByteArray))
  | files (tree : FileTree)
  | computed (f : String → Except StoreFault ByteArray)

namespace Store

/-- The bytes of the template with a name. -/
def read : Store → String → Except StoreFault ByteArray
  | .memory templates, name =>
    match Table.find? name templates with
    | some bytes => .ok bytes
    | none => .error .notFound
  | .files tree, name => tree.read name
  | .computed f, name => f name

/-- Put a template into a store that holds templates. -/
def add (name : String) (bytes : ByteArray) : Store → Store
  | .memory templates => .memory (Table.insert name bytes templates)
  | .files tree => .files (tree.addFile name bytes)
  | .computed f => .computed f

end Store

end Stencil
