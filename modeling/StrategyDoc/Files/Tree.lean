import StrategyDoc.Files.Disk

/-! # Trees of files

A tree holds files and directories under names.  A location is followed from the top of the
tree, name by name: an empty name and a single point stay in a directory, two points lead
out of it.  Outside the tree, that is above its top and at locations that start with a
slash, there are directories but nothing in them. -/

namespace StrategyDoc

/-- A file, or a directory of named trees. -/
inductive FileTree where
  | file (content : ByteArray)
  | directory (entries : List (String × FileTree))

namespace FileTree

/-- The directory with nothing in it. -/
def empty : FileTree := directory []

instance : Inhabited FileTree := ⟨empty⟩

/-- The entry of a name. -/
def find? (name : String) : List (String × FileTree) → Option FileTree
  | [] => none
  | (key, tree) :: rest => if key = name then some tree else find? name rest

/-- Set the entry of a name. -/
def set (name : String) (tree : FileTree) : List (String × FileTree) → List (String × FileTree)
  | [] => [(name, tree)]
  | (key, other) :: rest =>
    if key = name then (name, tree) :: rest else (key, other) :: set name tree rest

/-- What a tree holds under a name. -/
def children : FileTree → List (String × FileTree)
  | file _ => []
  | directory entries => entries

/-- Put a tree at a location, with the directories that lead there. -/
def insert (leaf : FileTree) : (names : List String) → FileTree → FileTree
  | [], _ => leaf
  | name :: rest, tree =>
    let child := (find? name tree.children).getD empty
    directory (set name (insert leaf rest child) tree.children)

/-- The names of a location. -/
def names (location : String) : List String :=
  (location.toList.splitOn '/').map String.ofList

/-- The longest name and the longest location, in bytes. -/
def maxName : Nat := 255

def maxLocation : Nat := 4095

/-- Follow names from a tree, with the directories passed on the way, the last one first. -/
def follow : (above : List FileTree) → FileTree → List String → Except FileFault FileTree
  | _, tree, [] => .ok tree
  | _, file _, _ :: _ => .error .notDirectory
  | above, directory entries, name :: rest =>
    if name = "" ∨ name = "." then follow above (directory entries) rest
    else if name = ".." then
      match above with
      | [] => follow [] empty rest
      | parent :: others => follow others parent rest
    else if maxName < name.utf8ByteSize then .error .nameTooLong
    else
      match find? name entries with
      | none => .error .notFound
      | some tree => follow (directory entries :: above) tree rest

/-- The tree at a location. -/
def locate (tree : FileTree) (location : String) : Except FileFault FileTree :=
  if location.isEmpty then .error .notFound
  else if location.toList.contains '\x00' then .error .nulInName
  else if maxLocation < location.utf8ByteSize then .error .nameTooLong
  else if location.toList.head? = some '/' then follow [] empty (names location)
  else follow [] tree (names location)

/-- The disk that holds a tree. -/
def disk (tree : FileTree) : Disk where
  entry location :=
    (tree.locate location).map fun
      | file content => .file (.ok content)
      | directory entries => .directory (.ok (entries.map (·.1)))

end FileTree

end StrategyDoc
