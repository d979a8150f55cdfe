import StateSlice.Validator

/-!
# What resolving a structure leads to

Looking through the boundaries of a structure ends at a node that is no boundary, however boundaries
and deferrals nest: at the node inside, or at the placeholder. So the inner node of a structure is a
scalar with a validator, a shape or an array, and whatever treats these three treats every
structure.
-/
namespace StateSlice

namespace Node

/-- What is seen through boundaries is no boundary. -/
theorem isBoundary_lookThrough (scope : Scope) (looks : Nat) (node : Node) :
    (node.lookThrough scope looks).isBoundary = false := by
  induction looks generalizing node with
  | zero => simp [lookThrough, placeholder, isBoundary]
  | succ looks hypothesis =>
    cases node with
    | boundary inner =>
      rw [lookThrough]
      exact hypothesis _
    | _ => simp [lookThrough, isBoundary]

/-- Where there is no boundary, looking through finds the node itself. -/
theorem lookThrough_eq_self (scope : Scope) {looks : Nat} {node : Node}
    (plain : node.isBoundary = false) : node.lookThrough scope (looks + 1) = node := by
  cases node <;> simp [lookThrough, isBoundary] at plain ⊢

/-- A node with the tag of shapes is a shape. -/
theorem eq_shape_of_tag {node : Node} (tagged : node.tag = .shape) :
    ∃ children wildcard explicit, node = .shape children wildcard explicit := by
  cases node with
  | scalar kind explicit => cases kind <;> simp [tag, Kind.tag] at tagged
  | shape children wildcard explicit => exact ⟨_, _, _, rfl⟩
  | _ => simp [tag] at tagged

/-- A node with the tag of arrays is an array. -/
theorem eq_arrayOf_of_tag {node : Node} (tagged : node.tag = .arrayOf) :
    ∃ element explicit, node = .arrayOf element explicit := by
  cases node with
  | scalar kind explicit => cases kind <;> simp [tag, Kind.tag] at tagged
  | arrayOf element explicit => exact ⟨_, _, rfl⟩
  | _ => simp [tag] at tagged

end Node

namespace Structure

variable (scope : Scope) (content : Structure)

/-- The inner node of a structure is no boundary. -/
theorem isBoundary_inner : (content.inner scope).isBoundary = false :=
  Node.isBoundary_lookThrough scope _ _

/-- A node that is at hand is reached within the limit. -/
@[simp]
theorem resolve?_ready (node : Node) : (Structure.ready node).resolve? scope = some node := by
  simp [resolve?, landing, Landing.node?]

/-- A node that is at hand is what it resolves to. -/
@[simp]
theorem resolve_ready (node : Node) : (Structure.ready node).resolve scope = node := by
  rw [resolve, resolve?_ready, Option.getD_some]

/-- The inner node of a structure is the inner node of itself. -/
@[simp]
theorem inner_ready_inner : (Structure.ready (content.inner scope)).inner scope =
    content.inner scope := by
  rw [inner, resolve_ready, Node.lookThrough_eq_self scope (content.isBoundary_inner scope)]

/-- The inner node of a structure is a scalar with a validator, a shape or an array. -/
theorem inner_cases :
    (∃ validator, (content.inner scope).ownValidator? = some validator) ∨
      (∃ children wildcard explicit, content.inner scope = .shape children wildcard explicit) ∨
      ∃ element explicit, content.inner scope = .arrayOf element explicit := by
  have plain := content.isBoundary_inner scope
  cases node : content.inner scope with
  | scalar kind explicit => exact .inl ⟨_, rfl⟩
  | custom check message explicit => exact .inl ⟨_, rfl⟩
  | shape children wildcard explicit => exact .inr (.inl ⟨_, _, _, rfl⟩)
  | arrayOf element explicit => exact .inr (.inr ⟨_, _, rfl⟩)
  | boundary inner => simp [node, Node.isBoundary] at plain

end Structure

end StateSlice
