import EightBit.Image.File

/-!
A tree of files below a working directory, and reading files in it by path.

A path is followed component by component. Components that are empty or `.` stay where they are but
still need a directory there; `..` goes back up. Each component is followed before the next one is
looked at, so a directory that a path enters and leaves again has to be there. What is known of the
directory above the working directory is kept as the entry `..` of the latter, and so on upwards.
-/

namespace EightBit

inductive FileTree where
  | file (content : ByteArray)
  | directory (entries : List (String × FileTree))

namespace FileTree

def empty : FileTree :=
  .directory []

def entries : FileTree → List (String × FileTree)
  | file _ => []
  | directory entries => entries

/-- The tree with `node` at the end of the given names; directories that are missing on the way are
made. A directory that is already there is kept. -/
def insert : FileTree → List String → FileTree → FileTree
  | directory entries, [], directory _ => .directory entries
  | _, [], node => node
  | tree, name :: rest, node =>
      let child := (tree.entries.lookup name).getD empty
      .directory ((name, child.insert rest node) :: tree.entries.filter (·.1 != name))

def components (path : String) : List String :=
  (path.toList.splitOn '/').map String.ofList

/-- The place that a component leads to from the place `names`. A place is given by the names that
lead to it from the working directory, the last name first. -/
def next (names : List String) (component : String) : List String :=
  if component = "" ∨ component = "." then names
  else if component = ".." then
    match names with
    | [] => [component]
    | name :: outer => if name = ".." then component :: names else outer
  else component :: names

/-- The tree with `node` where the given components lead from the place `names`. There is a directory
at every place on the way, made if it was missing, also where the way goes on to `..`. -/
def putFrom (tree : FileTree) (node : FileTree) (names : List String) : List String → FileTree
  | [] => tree.insert names.reverse node
  | component :: rest => putFrom (tree.insert names.reverse empty) node (next names component) rest

def put (tree : FileTree) (path : String) (node : FileTree) : FileTree :=
  putFrom tree node [] (components path)

def componentLimit : Nat := 255

def pathLimit : Nat := 4096

/-- Follows the components of a path from `here`, whose ancestors are `above`, nearest first. -/
def walk (here : FileTree) (above : List FileTree) : List String → Except ReadError FileTree
  | [] => .ok here
  | component :: rest =>
      match here with
      | file _ => .error .notDirectory
      | directory entries =>
          if component = "" ∨ component = "." then walk here above rest
          else if component = ".." then
            match above with
            | [] => walk ((entries.lookup component).getD empty) [] rest
            | parent :: above => walk parent above rest
          else if component.utf8ByteSize > componentLimit then .error .nameTooLong
          else
            match entries.lookup component with
            | some child => walk child (here :: above) rest
            | none => .error .noSuchFile

def find (tree : FileTree) (path : String) : Except ReadError FileTree :=
  if path.toList.contains '\x00' then .error .nameHasNul
  else if path.isEmpty then .error .noSuchFile
  else if path.utf8ByteSize ≥ pathLimit then .error .nameTooLong
  else walk (if path.toList.head? = some '/' then empty else tree) [] (components path)

def read (tree : FileTree) (path : String) : Except ReadError ByteArray :=
  match tree.find path with
  | .ok (file content) => .ok content
  | .ok (directory _) => .error .isDirectory
  | .error cause => .error cause

end FileTree

end EightBit
