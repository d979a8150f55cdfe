import StateSlice.Json.Value
import StateSlice.Tree

/-!
# Selectors

A selector reads one position out of a state. Selectors extend by names: a name is read from an
object, and any other value has nothing under it.
-/
namespace StateSlice

open Json (Value)

/-- A reader of one position. -/
abbrev Selector := Value → Option Value

namespace Selector

/-- The whole state. -/
def identity : Selector := some

/-- The value at a name of what a selector reads. -/
def thenKey (selector : Selector) (name : String) : Selector := fun state =>
  (selector state).bind (Value.get? name)

/-- The value at a name of the state. -/
def key (name : String) : Selector := identity.thenKey name

/-- The value at the end of a path of names. -/
def path (names : List String) : Selector := names.foldl thenKey identity

end Selector

/-- What the selector at the end of a path reads from a state. -/
def Tree.select? (path : List String) (selectors : Tree Selector) (state : Value) : Option Value :=
  (selectors.leaf? path).bind (· state)

end StateSlice
