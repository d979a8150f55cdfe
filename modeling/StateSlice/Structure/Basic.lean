import StateSlice.Json.Value

/-!
# Structures

A structure declares what one slice of state may hold. It is a node, or a deferral that produces a
structure when it is needed, so that a structure can refer to itself. The deferrals of a program are
closures; here a deferral is data. One that is *named* by a label is the same wherever the label
occurs, one that is *fresh* produces what its label stands for but is the same as no other, one that
is *held* has its structure built already, and one that is *overridden* declares another default for
what it produces. What a label stands for is the business of a `Scope`.
-/
namespace StateSlice

open Json (Value)

/-- The kinds of scalar. -/
inductive Kind
  | string
  | number
  | boolean
  | any
deriving DecidableEq

/-- The tags of nodes. -/
inductive Tag
  | string
  | number
  | boolean
  | any
  | custom
  | shape
  | arrayOf
  | boundary
deriving DecidableEq

mutual
/-- A declared node. -/
inductive Node
  /-- A scalar of a kind. -/
  | scalar (kind : Kind) (explicit : Option Value)
  /-- A value accepted by a check, and the message for one that is not. -/
  | custom (check : Value → Bool) (message : String) (explicit : Option Value)
  /-- An object with named children, and a structure for every other name if there is a wildcard. -/
  | shape (children : List (String × Structure)) (wildcard : Option Structure)
      (explicit : Option Value)
  /-- An array of elements. -/
  | arrayOf (element : Structure) (explicit : Option Value)
  /-- A part that is dispatched to and reset on its own. -/
  | boundary (inner : Structure)

/-- A node, or a deferral that produces a structure. -/
inductive Structure
  | ready (node : Node)
  | deferred (deferral : Deferral)

/-- A structure that is produced when it is needed. -/
inductive Deferral
  /-- What a label stands for; the same deferral at every occurrence of the label. -/
  | named (label : Nat)
  /-- What a label stands for; a deferral of its own at every expansion. -/
  | fresh (label : Nat)
  /-- A structure that is built already; a deferral of its own. -/
  | held (content : Structure)
  /-- What another deferral produces, with another default; a deferral of its own. -/
  | overridden (deferral : Deferral) (value : Value)
end

namespace Kind

/-- The tag of scalars of a kind. -/
def tag : Kind → Tag
  | .string => .string
  | .number => .number
  | .boolean => .boolean
  | .any => .any

/-- Whether a value is of a kind; every value is of the kind `any`, a null included. -/
def accepts : Kind → Value → Bool
  | .string, .string _ => true
  | .number, .number _ => true
  | .boolean, .bool _ => true
  | .any, _ => true
  | _, _ => false

end Kind

namespace Tag

/-- All tags. -/
def all : List Tag := [.string, .number, .boolean, .any, .custom, .shape, .arrayOf, .boundary]

/-- The name of a tag. -/
def name : Tag → String
  | .string => "string"
  | .number => "number"
  | .boolean => "boolean"
  | .any => "any"
  | .custom => "custom"
  | .shape => "shape"
  | .arrayOf => "arrayOf"
  | .boundary => "reducer"

/-- The default of a node of a tag that declares none. -/
def zero : Tag → Value
  | .string => .string ""
  | .number => .number (.int 0)
  | .boolean => .bool false
  | .any | .custom | .boundary => .null
  | .shape => .object []
  | .arrayOf => .array []

end Tag

mutual
/-- The node with another default; a boundary passes it to what it encloses. -/
def Node.withDefault (value : Value) : Node → Node
  | .scalar kind _ => .scalar kind (some value)
  | .custom check message _ => .custom check message (some value)
  | .shape children wildcard _ => .shape children wildcard (some value)
  | .arrayOf element _ => .arrayOf element (some value)
  | .boundary inner => .boundary (inner.withDefault value)

/-- The structure with another default; a deferral stays deferred. -/
def Structure.withDefault (value : Value) : Structure → Structure
  | .ready node => .ready (node.withDefault value)
  | .deferred deferral => .deferred (.overridden deferral value)
end

namespace Node

/-- The tag of a node. -/
def tag : Node → Tag
  | .scalar kind _ => kind.tag
  | .custom _ _ _ => .custom
  | .shape _ _ _ => .shape
  | .arrayOf _ _ => .arrayOf
  | .boundary _ => .boundary

/-- The default that a node declares; a boundary declares none of its own. -/
def explicit? : Node → Option Value
  | .scalar _ explicit | .custom _ _ explicit => explicit
  | .shape _ _ explicit | .arrayOf _ explicit => explicit
  | .boundary _ => none

/-- Whether a node is a boundary. -/
def isBoundary : Node → Bool
  | .boundary _ => true
  | _ => false

/-- The declared default, or else the zero of the tag. -/
def ownDefault (node : Node) : Value := node.explicit?.getD node.tag.zero

/-- The node that stands for a structure that cannot be followed to a node: it rejects all
values. -/
def placeholder : Node :=
  .custom (fun _ => false) "Deferred structure never produced a node" none

end Node

namespace Deferral

/-- What makes a deferral the same as another: its label if it is named. Other deferrals are the
same as no deferral that could be open when they are met. -/
def identity : Deferral → Option Nat
  | .named label => some label
  | _ => none

end Deferral

namespace Structure

/-- Whether a structure is deferred. -/
def isDeferred : Structure → Bool
  | .ready _ => false
  | .deferred _ => true

/-- A scalar without a declared default. -/
def scalar (kind : Kind) : Structure := .ready (.scalar kind none)

/-- A value accepted by a check. -/
def custom (check : Value → Bool) (message : String) : Structure :=
  .ready (.custom check message none)

/-- An array of elements. -/
def arrayOf (element : Structure) : Structure := .ready (.arrayOf element none)

/-- A boundary around a structure. -/
def boundary (inner : Structure) : Structure := .ready (.boundary inner)

/-- A structure that is built already, deferred. -/
def lazily (content : Structure) : Structure := .deferred (.held content)

end Structure

end StateSlice
