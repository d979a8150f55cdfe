/-!
# Locations

A location is the text that names a position of the state in the types of actions: the names on the
way to it, each after a point. A point, a slash and a backslash in a name are escaped by a
backslash, so the name `a.b` and the name `b` under the name `a` have different locations.
-/
namespace StateSlice.Location

/-- Whether a character is escaped in a name. -/
def isEscaped (c : Char) : Bool := c == '\\' || c == '.' || c == '/'

/-- The characters of a name, with a backslash in front of each escaped one. -/
def escapeChars (name : List Char) : List Char :=
  name.flatMap fun c => if isEscaped c then ['\\', c] else [c]

/-- A name as it stands in a location. -/
def escape (name : String) : String := String.ofList (escapeChars name.toList)

/-- The location of a name under a location. -/
def child (parent name : String) : String := parent ++ "." ++ escape name

/-- The location of a path of names under a location. -/
def descend (root : String) (path : List String) : String := path.foldl child root

/-- Whether a location is the other one or lies under it. -/
def isWithin (location boundary : String) : Bool :=
  match boundary.toList.isPrefixOf? location.toList with
  | some [] => true
  | some (c :: _) => c == '.'
  | none => false

end StateSlice.Location
