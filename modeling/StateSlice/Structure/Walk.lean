import StateSlice.Structure.Resolve

/-!
# Walking through deferrals

A walk goes from a structure to the parts of its node and on, through deferrals like through nodes.
It keeps the deferrals that are open on the way to where it is. It does not enter one that is open
already, nor any when `maxHops` of them are open, and that is what ends a walk of a structure that
refers to itself. `Structure.hasBoundary` is the walk through named children in search of a
boundary.
-/
namespace StateSlice

/-- A step from a node to one of its parts. -/
inductive Place
  /-- To the child of a name. -/
  | child (name : String)
  /-- To the wildcard. -/
  | wildcard
  /-- To the elements of an array. -/
  | element
  /-- Into a boundary. -/
  | inside
deriving DecidableEq

/-- The parts of a node, each with the step to it. -/
def Node.parts : Node → List (Place × Structure)
  | .scalar _ _ | .custom _ _ _ => []
  | .shape children wildcard _ =>
    children.map (fun (name, child) => (.child name, child)) ++
      wildcard.toList.map fun child => (.wildcard, child)
  | .arrayOf element _ => [(.element, element)]
  | .boundary inner => [(.inside, inner)]

/-- The named children of a node. -/
def Node.children : Node → List (String × Structure)
  | .shape children _ _ => children
  | _ => []

/-- A named child is smaller than its node. -/
theorem Node.sizeOf_lt_of_mem_children {node : Node} {child : String × Structure}
    (member : child ∈ node.children) : sizeOf child.2 < sizeOf node := by
  cases node with
  | shape children wildcard explicit =>
    have inner := List.sizeOf_lt_of_mem (show child ∈ children from member)
    obtain ⟨name, content⟩ := child
    simp at inner ⊢
    omega
  | _ => simp [Node.children] at member

/-- A part is smaller than its node. -/
theorem Node.sizeOf_lt_of_mem_parts {node : Node} {part : Place × Structure}
    (member : part ∈ node.parts) : sizeOf part.2 < sizeOf node := by
  cases node with
  | scalar kind explicit => simp [Node.parts] at member
  | custom check message explicit => simp [Node.parts] at member
  | shape children wildcard explicit =>
    rcases List.mem_append.1 member with named | wild
    · obtain ⟨child, child_mem, rfl⟩ := List.mem_map.1 named
      exact @Node.sizeOf_lt_of_mem_children (.shape children wildcard explicit) _ child_mem
    · obtain ⟨child, child_mem, rfl⟩ := List.mem_map.1 wild
      cases wildcard with
      | none => simp at child_mem
      | some content =>
        obtain rfl : child = content := by simpa using child_mem
        simp
        omega
  | arrayOf element explicit =>
    obtain rfl : part = (.element, element) := by simpa [Node.parts] using member
    simp
    omega
  | boundary inner =>
    obtain rfl : part = (.inside, inner) := by simpa [Node.parts] using member
    simp

/-- The identities of the deferrals that are open, innermost first. -/
abbrev Opened := List (Option Nat)

/-- Whether a deferral must not be entered. -/
def Deferral.isClosedTo (deferral : Deferral) (opened : Opened) : Bool :=
  (deferral.identity.isSome && opened.contains deferral.identity) ||
    decide (maxHops ≤ opened.length)

/-- What a walk finds at a position. -/
inductive Finding
  /-- A node. -/
  | found (node : Node)
  /-- A deferral that must not be entered. -/
  | closed
  /-- A deferral that cannot be followed to a node. -/
  | unresolved

namespace Structure

/-- The open deferrals when a structure has been entered. -/
def opening (content : Structure) (opened : Opened) : Opened :=
  match content with
  | .ready _ => opened
  | .deferred deferral => deferral.identity :: opened

/-- What a walk with some deferrals open finds at a structure. -/
def find (scope : Scope) (opened : Opened) (content : Structure) : Finding :=
  match content with
  | .ready node => .found node
  | .deferred deferral =>
    if deferral.isClosedTo opened then .closed
    else match content.resolve? scope with
      | some node => .found node
      | none => .unresolved

/-- A step of a walk leaves less room for deferrals, or as much and a smaller structure. -/
theorem walk_decreases {scope : Scope} {opened : Opened} {content : Structure} {node : Node}
    (found : content.find scope opened = .found node) {part : Structure}
    (smaller : sizeOf part < sizeOf node) :
    Prod.Lex (· < ·) (· < ·) (maxHops - (content.opening opened).length, sizeOf part)
      (maxHops - opened.length, sizeOf content) := by
  cases content with
  | ready ready =>
    obtain rfl : ready = node := by simpa [find] using found
    exact Prod.Lex.right _ (by simp; omega)
  | deferred deferral =>
    apply Prod.Lex.left
    have entered : deferral.isClosedTo opened = false := by
      cases closed : deferral.isClosedTo opened with
      | false => rfl
      | true => simp [find, closed] at found
    have room : opened.length < maxHops := by
      simp only [Deferral.isClosedTo, Bool.or_eq_false_iff, decide_eq_false_iff_not] at entered
      omega
    simp only [opening, List.length_cons]
    omega

/-- Whether a walk with some deferrals open reaches a boundary through named children. -/
def reachesBoundary (scope : Scope) (opened : Opened) (content : Structure) : Bool :=
  match _found : content.find scope opened with
  | .found node =>
    node.isBoundary || node.children.attach.any fun child =>
      reachesBoundary scope (content.opening opened) child.1.2
  | _ => false
termination_by (maxHops - opened.length, sizeOf content)
decreasing_by exact walk_decreases _found (Node.sizeOf_lt_of_mem_children child.2)

/-- One step of the search for a boundary. -/
theorem reachesBoundary_eq (scope : Scope) (opened : Opened) (content : Structure) :
    content.reachesBoundary scope opened =
      match content.find scope opened with
      | .found node =>
        node.isBoundary || node.children.any fun child =>
          child.2.reachesBoundary scope (content.opening opened)
      | _ => false := by
  rw [reachesBoundary]
  cases content.find scope opened with
  | found node =>
    simp only
    conv => rhs; rw [← List.attach_map_subtype_val node.children, List.any_map]
    rfl
  | closed => rfl
  | unresolved => rfl

/-- Whether a structure is a boundary or has one among its named descendants. Neither wildcards nor
elements of arrays are searched. -/
def hasBoundary (scope : Scope) (content : Structure) : Bool := content.reachesBoundary scope []

end Structure

end StateSlice
