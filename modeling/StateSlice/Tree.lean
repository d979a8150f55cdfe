/-!
# Trees of leaves

What is compiled from a structure is a tree: leaves with a payload, and branches with named children
at a location, marked if they are boundaries. Reducers, creators of actions and selectors are trees
of one shape. A path is a list of names; of children with one name a path leads to the first.
-/
namespace StateSlice

/-- A leaf with a payload, or a branch of named children. -/
inductive Tree (α : Type)
  | leaf (payload : α)
  | branch (location : String) (boundary : Bool) (children : List (String × Tree α))

namespace Tree

variable {α β : Type}

/-- Induction over a tree, with what is known of all children at a branch. -/
theorem induct {motive : Tree α → Prop} (leaf : ∀ payload, motive (.leaf payload))
    (branch : ∀ location boundary children, (∀ child ∈ children, motive child.2) →
      motive (.branch location boundary children)) : ∀ tree, motive tree
  | .leaf payload => leaf payload
  | .branch location boundary children => branch location boundary children
      fun child _ => induct leaf branch child.2
termination_by tree => sizeOf tree
decreasing_by
  have inner := List.sizeOf_lt_of_mem ‹child ∈ children›
  obtain ⟨name, content⟩ := child
  simp at inner ⊢
  omega

/-- The named children; a leaf has none. -/
def children : Tree α → List (String × Tree α)
  | .leaf _ => []
  | .branch _ _ children => children

/-- Whether the tree is a leaf. -/
def isLeaf : Tree α → Bool
  | .leaf _ => true
  | .branch _ _ _ => false

/-- The payload of a leaf. -/
def payload? : Tree α → Option α
  | .leaf payload => some payload
  | .branch _ _ _ => none

/-- The location of a branch. -/
def location? : Tree α → Option String
  | .leaf _ => none
  | .branch location _ _ => some location

/-- The names of the children, in order. -/
def keys (tree : Tree α) : List String := tree.children.map (·.1)

/-- The first child of a name. -/
def get? (name : String) (tree : Tree α) : Option (Tree α) :=
  (tree.children.find? (·.1 == name)).map (·.2)

/-- The tree at the end of a path. -/
def follow? : List String → Tree α → Option (Tree α)
  | [], tree => some tree
  | name :: path, tree => (tree.get? name).bind (follow? path)

/-- The payload of the leaf at the end of a path. -/
def leaf? (path : List String) (tree : Tree α) : Option α := (tree.follow? path).bind payload?

mutual
/-- The tree with every payload replaced by its image. -/
def map (f : α → β) : Tree α → Tree β
  | .leaf payload => .leaf (f payload)
  | .branch location boundary children => .branch location boundary (mapChildren f children)

/-- Children with every payload replaced by its image. -/
def mapChildren (f : α → β) : List (String × Tree α) → List (String × Tree β)
  | [] => []
  | (name, child) :: children => (name, child.map f) :: mapChildren f children
end

/-- Children are mapped one by one. -/
theorem mapChildren_eq_map (f : α → β) (children : List (String × Tree α)) :
    mapChildren f children = children.map fun child => (child.1, child.2.map f) := by
  induction children with
  | nil => simp [mapChildren]
  | cons child children hypothesis => simp [mapChildren, hypothesis]

/-- A path written as one text; the empty text is not written as a name in front. -/
def extendPath (front name : String) : String :=
  if front.isEmpty then name else front ++ "." ++ name

mutual
/-- The leaves with the texts of their paths, each behind a text in front, depth first. -/
def leavesBehind (front : String) : Tree α → List (String × α)
  | .leaf payload => [(front, payload)]
  | .branch _ _ children => leavesOfChildren front children

/-- The leaves of children with the texts of their paths. -/
def leavesOfChildren (front : String) : List (String × Tree α) → List (String × α)
  | [] => []
  | (name, child) :: children =>
    child.leavesBehind (extendPath front name) ++ leavesOfChildren front children
end

/-- The leaves with the texts of their paths, depth first. -/
def leaves (tree : Tree α) : List (String × α) := tree.leavesBehind ""

mutual
/-- Whether two trees have the same names at every depth, whatever their payloads. -/
def sameShape : Tree α → Tree β → Bool
  | .leaf _, .leaf _ => true
  | .branch _ _ lefts, .branch _ _ rights => sameChildren lefts rights
  | _, _ => false

/-- Whether children have the same names and shapes, in order. -/
def sameChildren : List (String × Tree α) → List (String × Tree β) → Bool
  | [], [] => true
  | (name, left) :: lefts, (other, right) :: rights =>
    name == other && left.sameShape right && sameChildren lefts rights
  | _, _ => false
end

end Tree

end StateSlice
