import EventPolicy.Text.Segment

/-!
Paths of files in normal form: a root, empty for a relative path, and the
names on the way. Repeated slashes and single dots say nothing and are
dropped; a double dot is kept. Two slashes at the very start are a root of
their own.
-/

namespace EventPolicy

/-- The start of a path. -/
inductive PathRoot where
  | relative
  | slash
  | doubleSlash
  deriving DecidableEq, Repr

/-- A path in normal form. -/
structure Path where
  root : PathRoot
  names : List String
  deriving DecidableEq, Repr

namespace Path

def rootText : PathRoot → String
  | .relative => ""
  | .slash => "/"
  | .doubleSlash => "//"

/-- The root that a text starts with: exactly two slashes are kept, three or
more count as one. -/
def rootOf (text : List Char) : PathRoot :=
  match (text.takeWhile (· = '/')).length with
  | 0 => .relative
  | 2 => .doubleSlash
  | _ => .slash

def ofText (text : String) : Path :=
  ⟨rootOf text.toList, (Text.allPieces text '/').filter fun name => name ≠ "" ∧ name ≠ "."⟩

/-- The text of a path; the empty relative path is a dot. -/
def text (path : Path) : String :=
  if path.root = .relative ∧ path.names = [] then "."
  else rootText path.root ++ Text.join "/" path.names

/-- A path seen from another. A path with a root stands for itself. -/
def append (base path : Path) : Path :=
  if path.root = .relative then ⟨base.root, base.names ++ path.names⟩ else path

def child (base : Path) (name : String) : Path := ⟨base.root, base.names ++ [name]⟩

/-- The names of a path in normal form are neither empty nor single dots. -/
theorem names_ofText {text name : String} (h : name ∈ (ofText text).names) :
    name ≠ "" ∧ name ≠ "." := by
  have kept := (List.mem_filter.1 h).2
  simpa using kept

end Path

end EventPolicy
