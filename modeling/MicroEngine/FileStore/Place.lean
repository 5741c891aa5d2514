/-!
# Places in a directory tree

A path is a walk: it starts at the root of the tree if it begins with a slash and at the working
directory otherwise, and takes one step for each of its names.

* `Place`: where a walk has arrived.
* `Place.parent`, `Place.enter`, `Place.target`: the directory above, and one step of a walk.
* `Place.isAbove`: whether one place lies below another.
* `Path.steps`, `Path.start`, `Path.endsInSlash`: the parts of a path.
-/

namespace MicroEngine

/-- A place in a directory tree: the names on the way to it from the root. -/
structure Place where
  names : List String
  deriving DecidableEq, Repr

namespace Place

def root : Place := ⟨[]⟩

/-- The working directory, two steps below the root. No step of a walk has the empty name, so the
working directory can be left but not entered from above. -/
def working : Place := ⟨["tmp", ""]⟩

/-- The directory above a place; the root is its own. -/
def parent (p : Place) : Place := ⟨p.names.dropLast⟩

/-- One step of a walk. -/
def enter (p : Place) (name : String) : Place :=
  if name = "." then p
  else if name = ".." then p.parent
  else ⟨p.names ++ [name]⟩

/-- The place that is meant by a name: some names of directories stand for other directories. -/
def target (p : Place) : Place :=
  match p.names with
  | ["bin"] => ⟨["usr", "bin"]⟩
  | ["lib"] => ⟨["usr", "lib"]⟩
  | ["lib64"] => ⟨["usr", "lib64"]⟩
  | ["sbin"] => ⟨["usr", "sbin"]⟩
  | ["var", "lock"] => ⟨["run", "lock"]⟩
  | ["var", "run"] => ⟨["run"]⟩
  | _ => p

/-- Whether `q` lies below `p`. -/
def isAbove (p q : Place) : Bool := p.names.isPrefixOf q.names && p != q

/-- The path of a place below the working directory. -/
def name? (p : Place) : Option String :=
  if working.isAbove p then some ("/".intercalate (p.names.drop working.names.length)) else none

end Place

namespace Path

/-- The names of a path, in order. -/
def steps (path : String) : List String := (path.splitOn "/").filter (· != "")

def start (path : String) : Place :=
  if path.toList.head? == some '/' then .root else .working

/-- The place at the end of a path whose names stand for themselves. -/
def place (path : String) : Place := (steps path).foldl Place.enter (start path)

/-- Whether a path ends in a slash, and so can only name a directory. -/
def endsInSlash (path : String) : Bool := path.toList.getLast? == some '/'

end Path

end MicroEngine
