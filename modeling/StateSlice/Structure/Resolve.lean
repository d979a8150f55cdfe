import StateSlice.Structure.Shape

/-!
# Following deferrals

A deferral may produce another deferral. Following such a chain ends at a node after some number of
hops or never ends; a `Scope` tells for each label where following what the label stands for leads.
`Structure.resolve` follows at most `maxHops` hops and `Structure.inner` looks through at most as
many boundaries; a structure that leads further resolves to the placeholder that rejects all values.
A scope can be any function. `Scope.ofDefinitions` builds the one in which each label stands for a
structure over the same labels.
-/
namespace StateSlice

open Json (Value)

/-- The most hops, and the most boundaries, that are followed at one position. -/
def maxHops : Nat := 64

/-- Where following deferrals leads. -/
inductive Landing
  /-- No node is ever produced. -/
  | endless
  /-- A node is reached after some hops. -/
  | reaches (hops : Nat) (node : Node)

namespace Landing

/-- The landing seen from one hop further away. -/
def later : Landing → Landing
  | .endless => .endless
  | .reaches hops node => .reaches (hops + 1) node

/-- The node, if it is within the limit. -/
def node? : Landing → Option Node
  | .endless => none
  | .reaches hops node => if hops ≤ maxHops then some node else none

end Landing

/-- Where following what a label stands for leads. -/
abbrev Scope := Nat → Landing

variable (scope : Scope)

mutual
/-- Where following a structure leads; a node is reached at once. -/
def Structure.landing : Structure → Landing
  | .ready node => .reaches 0 node
  | .deferred deferral => deferral.landing.later

/-- Where following what a deferral produces leads. An overridden deferral resolves what it
overrides, within the limit, and is done. -/
def Deferral.landing : Deferral → Landing
  | .named label | .fresh label => scope label
  | .held content => content.landing
  | .overridden deferral value =>
    .reaches 0 ((deferral.landing.node?.getD .placeholder).withDefault value)
end

namespace Structure

/-- The node of a structure, if it is reached within the limit. -/
def resolve? (content : Structure) : Option Node := (content.landing scope).node?

/-- The node of a structure, or the placeholder. -/
def resolve (content : Structure) : Node := (content.resolve? scope).getD .placeholder

end Structure

namespace Node

/-- The node inside the boundaries, in at most the given number of looks, or the placeholder. -/
def lookThrough : (looks : Nat) → Node → Node
  | 0, _ => .placeholder
  | looks + 1, .boundary inner => lookThrough looks (inner.resolve scope)
  | _ + 1, node => node

end Node

namespace Structure

/-- The node of a structure, inside its boundaries. -/
def inner (content : Structure) : Node := (content.resolve scope).lookThrough scope (maxHops + 1)

/-- The tag of the node of a structure. -/
def tag (content : Structure) : Tag := (content.resolve scope).tag

end Structure

/-- The default of a node; that of a boundary is the default of what it encloses. -/
def Node.defaultValue : Node → Value
  | .boundary inner => (inner.inner scope).ownDefault
  | node => node.ownDefault

/-- The default of a structure. -/
def Structure.defaultValue (content : Structure) : Value := (content.inner scope).ownDefault

/-- Whether a structure is a shape with a wildcard. -/
def Structure.hasWildcard (content : Structure) : Bool :=
  match content.inner scope with
  | .shape _ (some _) _ => true
  | _ => false

/-- The structure that a shape declares for a name. -/
def Structure.child? (content : Structure) (name : String) (allowWildcard : Bool) :
    Option Structure :=
  match content.inner scope with
  | .shape children wildcard _ => Shape.lookup children wildcard name allowWildcard
  | _ => none

namespace Scope

/-- One more round of following definitions. -/
def round (definitions : List Structure) (landings : List Landing) : List Landing :=
  definitions.map fun definition => definition.landing fun label => landings.getD label .endless

/-- The scope in which each label stands for the definition at its place. A chain from definition to
definition passes each at most once or never ends, so one round for each is enough; a label without
a definition is endless. -/
def ofDefinitions (definitions : List Structure) : Scope :=
  let landings := definitions.foldl (fun landings _ => round definitions landings) []
  fun label => landings.getD label .endless

end Scope

end StateSlice
