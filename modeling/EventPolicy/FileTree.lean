import EventPolicy.Entries
import EventPolicy.Path

/-!
Files and directories by their place, a list of names from the root. The root
is a directory. A path is followed name by name, each step from a directory,
so a double dot leads back to where the way came from. A name or a path that
is too long for any file is a fault of its own, told once the way comes to it.
-/

namespace EventPolicy

/-- The names from the root of the tree to a file or a directory. -/
abbrev Place := List String

/-- What stands at a place. -/
inductive FileNode where
  | file (content : ByteArray)
  | directory

/-- Why a path leads to nothing: nothing is there, or a name or the whole path
is longer than any can be. -/
inductive PathFault where
  | absent
  | tooLong
  deriving DecidableEq, Repr

/-- Files and directories by place. -/
structure FileTree where
  nodes : List (Place × FileNode)

namespace FileTree

def empty : FileTree := ⟨[]⟩

def node? (tree : FileTree) (place : Place) : Option FileNode :=
  if place = [] then some .directory
  else (tree.nodes.find? (·.1 == place)).map Prod.snd

def isDirectory (tree : FileTree) (place : Place) : Bool :=
  match tree.node? place with
  | some .directory => true
  | _ => false

/-- Removes what stands at a place and below it. -/
def remove (tree : FileTree) (place : Place) : FileTree :=
  ⟨tree.nodes.filter fun (other, _) => !place.isPrefixOf other⟩

/-- Makes the missing directories on the way to a place, the place included. -/
def makeDirectories (tree : FileTree) (place : Place) : FileTree :=
  let missing := ((List.range place.length).map fun i => place.take (i + 1)).filter fun part =>
    (tree.node? part).isNone
  ⟨tree.nodes ++ missing.map fun part => (part, .directory)⟩

/-- Puts a file at a place, with the directories on the way. -/
def write (tree : FileTree) (place : Place) (content : ByteArray) : FileTree :=
  let kept := (tree.makeDirectories place.dropLast).nodes.filter fun (other, _) => other != place
  ⟨kept ++ [(place, .file content)]⟩

/-- The greatest number of bytes of a name. -/
def longestName : Nat := 255

/-- The greatest number of bytes of a path. -/
def longestPath : Nat := 4095

/-- Whether a name has more bytes than a name can have. -/
def isTooLong (name : String) : Bool := decide (longestName < name.utf8ByteSize)

/-- Follows names from a place. A name is looked up only in a directory that
is there. -/
def follow (tree : FileTree) : Place → List String → Except PathFault Place
  | place, [] => if (tree.node? place).isSome then .ok place else .error .absent
  | place, name :: rest =>
    if tree.isDirectory place then
      if name = ".." then follow tree place.dropLast rest
      else if isTooLong name then .error .tooLong
      else follow tree (place ++ [name]) rest
    else .error .absent

/-- The place to which a path leads from a working directory, if it exists. No
file has a name with the character of number zero. -/
def locate (tree : FileTree) (workingDirectory : Place) (path : Path) : Except PathFault Place :=
  if '\x00' ∈ path.text.toList then .error .absent
  else if longestPath < path.text.utf8ByteSize then .error .tooLong
  else
    match path.root with
    | .relative => tree.follow workingDirectory path.names
    | _ => tree.follow [] path.names

def lookup (tree : FileTree) (workingDirectory : Place) (path : Path) : Except PathFault FileNode :=
  match tree.locate workingDirectory path with
  | .error fault => .error fault
  | .ok place =>
    match tree.node? place with
    | some node => .ok node
    | none => .error .absent

/-- Names that lead to a place lead to something that is there. -/
theorem isSome_node?_of_follow {tree : FileTree} {names : List String} {start place : Place}
    (h : tree.follow start names = .ok place) : (tree.node? place).isSome = true := by
  induction names generalizing start with
  | nil =>
    simp only [follow] at h
    split at h
    · next present => exact Except.ok.inj h ▸ present
    · cases h
  | cons name rest ih =>
    simp only [follow] at h
    repeat' split at h
    · exact ih h
    · cases h
    · exact ih h
    · cases h

/-- A path that leads to a place leads to something that is there. -/
theorem isSome_node?_of_locate {tree : FileTree} {workingDirectory place : Place} {path : Path}
    (h : tree.locate workingDirectory path = .ok place) : (tree.node? place).isSome = true := by
  unfold locate at h
  repeat' split at h
  · cases h
  · cases h
  · exact isSome_node?_of_follow h
  · exact isSome_node?_of_follow h

/-- A path leads to something exactly when it leads to a place. -/
theorem isOk_lookup_iff (tree : FileTree) (workingDirectory : Place) (path : Path) :
    (tree.lookup workingDirectory path).isOk ↔
      (tree.locate workingDirectory path).isOk := by
  cases found : tree.locate workingDirectory path with
  | error fault => simp [lookup, found, Except.isOk, Except.toBool]
  | ok place =>
    obtain ⟨node, present⟩ := Option.isSome_iff_exists.1 (isSome_node?_of_locate found)
    simp [lookup, found, present, Except.isOk, Except.toBool]

end FileTree

end EventPolicy
