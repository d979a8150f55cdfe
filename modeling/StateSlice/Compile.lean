import StateSlice.Leaf
import StateSlice.Selector
import StateSlice.Structure.Walk

/-!
# Compiling a structure

A structure is compiled into a tree. A shape becomes a branch; each child that has a boundary is
compiled in its turn, under its location and with a selector that reads its name, and every other
child becomes a leaf that owns its value. What is no shape becomes a leaf. Wildcards are not part of
the tree. Nothing in the structure itself ends the recursion: a structure that refers to itself
through a boundary may be compiled without end, and then there is no result, not even an error.
-/
namespace StateSlice

/-- A leaf of a compiled tree. -/
structure CompiledLeaf where
  /-- What is done with the value. -/
  leaf : Leaf
  /-- Where the value is read from the state of the host. -/
  selector : Selector

/-- Where a tree is mounted. -/
structure Mount where
  /-- Reads the state of the tree out of the state of the host. -/
  selector : Selector
  /-- The location of the tree. -/
  location : String

/-- The mount of the child of a name. -/
def Mount.child (mount : Mount) (name : String) : Mount :=
  ⟨mount.selector.thenKey name, Location.child mount.location name⟩

namespace Structure

variable (scope : Scope)

/-- The leaf of a structure at a mount. -/
def compileLeaf (content : Structure) (mount : Mount) : Except UnknownType CompiledLeaf :=
  (Leaf.of scope content mount.location).map fun leaf => ⟨leaf, mount.selector⟩

/-- The tree of a structure at a mount, marked as a boundary or not. -/
def compileAs (boundary : Bool) (content : Structure) (m : Mount) :
    Option (Except UnknownType (Tree CompiledLeaf)) :=
  match content.inner scope with
  | .shape children _ _ => ExceptT.run do
    let compiled ← children.mapM fun (name, child) => do
      let below := m.child name
      let compileBelow := compileAs (m := below)
      let tree ← show ExceptT UnknownType Option (Tree CompiledLeaf) from
        if child.hasBoundary scope then compileBelow (child.resolve scope).isBoundary child
        else some (.leaf <$> child.compileLeaf scope below)
      return (name, tree)
    return .branch m.location boundary compiled
  | _ => some (.leaf <$> content.compileLeaf scope m)
partial_fixpoint

/-- The tree of a structure that is a boundary of its own. -/
def compile (content : Structure) (mount : Mount) :
    Option (Except UnknownType (Tree CompiledLeaf)) :=
  content.compileAs scope true mount

end Structure

end StateSlice
