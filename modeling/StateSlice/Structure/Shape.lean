import StateSlice.Structure.Basic

/-!
# Shapes from entries

A shape is declared by a list of entries, each under a name or under the wildcard. The wildcard is a
key of its own, so no name is ever mistaken for it. A name that is declared again keeps its place
and takes the later structure, and so does the wildcard.
-/
namespace StateSlice

/-- The key of an entry of a shape. -/
inductive Key
  | named (name : String)
  | wildcard
deriving DecidableEq

namespace Key

/-- Whether the key is the wildcard. -/
def isWildcard : Key → Bool
  | .named _ => false
  | .wildcard => true

/-- The key as it is shown. -/
def text : Key → String
  | .named name => name
  | .wildcard => "<wildcard>"

end Key

namespace Shape

/-- Bind a name: in place of its earlier binding, or else after all others. -/
def bind (name : String) (content : Structure) :
    List (String × Structure) → List (String × Structure)
  | [] => [(name, content)]
  | (known, old) :: rest =>
    if known = name then (known, content) :: rest else (known, old) :: bind name content rest

/-- The children after one more entry. -/
def bindEntry (children : List (String × Structure)) : Key × Structure → List (String × Structure)
  | (.named name, content) => bind name content children
  | (.wildcard, _) => children

/-- The named children that entries declare. -/
def children (entries : List (Key × Structure)) : List (String × Structure) :=
  entries.foldl bindEntry []

/-- The wildcard after one more entry. -/
def bindWildcard (wildcard : Option Structure) : Key × Structure → Option Structure
  | (.named _, _) => wildcard
  | (.wildcard, content) => some content

/-- The wildcard that entries declare. -/
def wildcard? (entries : List (Key × Structure)) : Option Structure :=
  entries.foldl bindWildcard none

/-- The first child of a name. -/
def child? (name : String) (children : List (String × Structure)) : Option Structure :=
  (children.find? (·.1 == name)).map (·.2)

/-- The structure for a name: the child of that name, or else the wildcard if it is allowed. -/
def lookup (children : List (String × Structure)) (wildcard : Option Structure) (name : String)
    (allowWildcard : Bool) : Option Structure :=
  child? name children <|> if allowWildcard then wildcard else none

end Shape

/-- The shape that entries declare. -/
def Structure.shape (entries : List (Key × Structure)) : Structure :=
  .ready (.shape (Shape.children entries) (Shape.wildcard? entries) none)

end StateSlice
