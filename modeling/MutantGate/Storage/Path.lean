/-!
# Paths

A path is a text of steps with slashes between them; a slash in front starts it at the
root, and otherwise it starts in the working directory.  A point stays where it is and
two points go up.  Where a path leads, as far as its text alone can tell, is a place: a
base and the names that lead down from it.  The extension of a path is what follows the
last point of the last name, unless that point comes first.
-/

namespace MutantGate

namespace Path

/-- Where names can lead down from: a directory some levels above the working directory,
which is itself at level zero, or the root. -/
inductive Base where
  | above (levels : Nat)
  | root
  deriving DecidableEq, Repr

/-- One level up; there is nothing above the root. -/
def Base.parent : Base → Base
  | .above levels => .above (levels + 1)
  | .root => .root

/-- A base and the names that lead down from it. -/
structure Place where
  base : Base
  names : List String
  deriving DecidableEq, Repr

namespace Place

/-- The place under a name in a directory. -/
def child (p : Place) (name : String) : Place := { p with names := p.names ++ [name] }

/-- The directory a place is in. -/
def parent (p : Place) : Place :=
  if p.names.isEmpty then ⟨p.base.parent, []⟩ else { p with names := p.names.dropLast }

end Place

/-- The steps of a path; repeated slashes count once. -/
def steps (path : String) : List String :=
  ((path.toList.splitOn '/').filter fun c => c != []).map String.ofList

/-- The place a path starts at. -/
def start (path : String) : Place := ⟨if path.startsWith "/" then .root else .above 0, []⟩

/-- The place a step leads to. -/
def follow (p : Place) (step : String) : Place :=
  if step == "." then p else if step == ".." then p.parent else p.child step

/-- The place a path leads to if all directories on its way are there. -/
def place (path : String) : Place := (steps path).foldl follow (start path)

/-! ## Extensions -/

/-- What follows the last point of a name, unless that point comes first. -/
def extensionOf? (name : String) : Option String :=
  let back := name.toList.reverse
  match back.dropWhile fun c => c != '.' with
  | [] | [_] => none
  | _ => some (String.ofList (back.takeWhile fun c => c != '.').reverse)

/-- The extension of a path, if its last step that leads anywhere is a name and has one. -/
def extension? (path : String) : Option String :=
  match ((steps path).filter fun s => s != ".").getLast? with
  | none | some ".." => none
  | some name => extensionOf? name

/-- An ASCII letter in lower case. -/
def lowerAscii (s : String) : String := s.map Char.toLower

/-- Does the path have the extension of JSON files, in any letter case? -/
def isJson (path : String) : Bool :=
  match extension? path with
  | some e => lowerAscii e == "json"
  | none => false

end Path

end MutantGate
