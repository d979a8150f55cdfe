import StateSlice.Structure.Resolve

/-!
# Validators of scalars

A scalar node decides by its kind or by its check which values it keeps. A boundary has the
validator of the node it encloses. Containers have none, and asking for one is an error of the
program that asks.
-/
namespace StateSlice

open Json (Value)

/-- What decides whether a scalar is kept. -/
inductive Validator
  | ofKind (kind : Kind)
  | ofCheck (check : Value → Bool)

/-- Whether a validator keeps a value. -/
def Validator.accepts : Validator → Value → Bool
  | .ofKind kind, value => kind.accepts value
  | .ofCheck check, value => check value

/-- A node of a tag that has no validator was asked for one. -/
structure UnknownType where
  /-- The tag of the node. -/
  tag : Tag
deriving DecidableEq

/-- The text of the error. -/
def UnknownType.message (error : UnknownType) : String :=
  "No validation registered for structure type '" ++ error.tag.name ++ "'"

namespace Node

/-- The validator of a scalar node. -/
def ownValidator? : Node → Option Validator
  | .scalar kind _ => some (.ofKind kind)
  | .custom check _ _ => some (.ofCheck check)
  | _ => none

/-- The validator of a node, of the enclosed one for a boundary. -/
def validator? (scope : Scope) : Node → Option Validator
  | .boundary inner => (inner.inner scope).ownValidator?
  | node => node.ownValidator?

/-- The validator of a node, or the error that there is none. -/
def validator (scope : Scope) (node : Node) : Except UnknownType Validator :=
  match node.validator? scope with
  | some validator => .ok validator
  | none => .error ⟨node.tag⟩

end Node

end StateSlice
