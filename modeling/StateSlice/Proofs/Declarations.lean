import StateSlice.Proofs.Conformance
import StateSlice.Proofs.Deferrals
import StateSlice.Proofs.Positions

/-!
# Declarations and their trees

The tree that a structure is compiled to mirrors the declaration place by place. By
`isDecided_of_compileAs` the position at the end of a path decides whether the tree has a branch
there, by its inner node and by the search for a boundary that starts at the position, and how the
branch is marked. With few deferrals the search finds whatever boundary there is, so nothing but the
declaration matters.
-/
namespace StateSlice

open Json (Value)

namespace Tree

variable {α : Type}

/-- One more name leads on from where the path before it leads. -/
theorem follow?_concat (tree : Tree α) (path : List String) (name : String) :
    tree.follow? (path ++ [name]) = (tree.follow? path).bind (get? name) := by
  induction path generalizing tree with
  | nil => exact Option.bind_fun_some (tree.get? name)
  | cons first path hypothesis =>
    rw [List.cons_append, follow?, follow?, Option.bind_assoc]
    exact congrArg (tree.get? first).bind (funext hypothesis)

/-- A name leads on to a child exactly if a child has it. -/
theorem isSome_get?_iff {tree : Tree α} {name : String} :
    (tree.get? name).isSome ↔ name ∈ tree.keys := by
  simp [get?, keys]

end Tree

namespace LeafActions

variable {actions : LeafActions}

/-- A leaf updates exactly if it holds a shape. -/
theorem supports_update_iff : actions.supports .update = true ↔ actions.kind = .shape := by
  cases kind : actions.kind <;> simp [supports, operations, kind]

/-- A leaf removes items exactly if it holds an array. -/
theorem supports_removeAtIndex_iff :
    actions.supports .removeAtIndex = true ↔ actions.kind = .array := by
  cases kind : actions.kind <;> simp [supports, operations, kind]

end LeafActions

/-- What a leaf of a node holds is told by the tag of the node. -/
theorem Container.IsFor.kind_iff {node : Node} {container : Container}
    (isFor : container.IsFor node) :
    (container.kind = .shape ↔ node.tag = .shape) ∧
      (container.kind = .array ↔ node.tag = .arrayOf) := by
  cases isFor with
  | value owned =>
    cases node with
    | scalar kind explicit => cases kind <;> simp [Container.kind, Node.tag, Kind.tag]
    | custom check message explicit => simp [Container.kind, Node.tag]
    | _ => simp [Node.ownValidator?] at owned
  | shape shaped => simp [shaped, Container.kind, Node.tag]
  | array listed => simp [listed, Container.kind, Node.tag]

namespace Structure

variable {scope : Scope} {root content position : Structure} {opened : Opened}

/-- Ways come to the positions at the ends of paths of names. -/
theorem Reaches.exists_at? {path : List String} (reaches : Reaches scope root opened content)
    (found : content.at? scope path = some position) :
    ∃ further, Reaches scope root further position := by
  induction path generalizing opened content with
  | nil =>
    obtain rfl := Option.some.inj found
    exact ⟨opened, reaches⟩
  | cons name path hypothesis =>
    obtain ⟨child, declared, further⟩ := Option.bind_eq_some_iff.1 found
    obtain ⟨later, next⟩ := reaches.exists_child (mem_of_child? declared)
    exact hypothesis next further

/-- There is a branch at the end of a path exactly if the inner node of the position there is a
shape and a boundary is found from the position; the whole needs no boundary. A branch is marked if
the position is a boundary; the mark of the whole is decided from outside. -/
def IsDecided (scope : Scope) (path : List String) (boundary : Bool) (position : Structure) :
    Tree CompiledLeaf → Prop
  | .leaf _ => ¬ ((position.inner scope).tag = .shape ∧
      (path = [] ∨ position.hasBoundary scope = true))
  | .branch _ mark _ => ((position.inner scope).tag = .shape ∧
      (path = [] ∨ position.hasBoundary scope = true)) ∧
      mark = if path = [] then boundary else (position.resolve scope).isBoundary

/-- What is decided in a child that has a boundary is decided in the whole. -/
theorem IsDecided.of_child {child : Structure} {name : String} {path : List String}
    {boundary : Bool} {place : Tree CompiledLeaf} (bounded : child.hasBoundary scope = true)
    (declared : child.at? scope path = some position)
    (decided : IsDecided scope path (child.resolve scope).isBoundary position place) :
    IsDecided scope (name :: path) boundary position place := by
  by_cases here : path = []
  · subst here
    obtain rfl := Option.some.inj declared
    cases place <;> simpa [IsDecided, bounded] using decided
  · cases place <;> simpa [IsDecided, here] using decided

/-- What is compiled is decided at the end of every path by the position there. -/
theorem isDecided_of_compileAs {boundary : Bool} {mount : Mount} {tree : Tree CompiledLeaf}
    (ends : content.compileAs scope boundary mount = some (.ok tree)) :
    ∀ path position place, content.at? scope path = some position →
      tree.follow? path = some place → IsDecided scope path boundary position place := by
  refine tree_induct (motive := fun boundary content _ tree => ∀ path position place,
    content.at? scope path = some position → tree.follow? path = some place →
      IsDecided scope path boundary position place) ?_ ?_ ends
  · intro boundary content mount compiled plain made path position place declared found
    obtain ⟨rfl, rfl⟩ := Tree.follow?_leaf_eq_some_iff.1 found
    obtain rfl := Option.some.inj declared
    exact fun shaped => plain shaped.1
  · intro boundary content mount children wildcard explicit compiled node related
      path position place declared found
    cases path with
    | nil =>
      obtain rfl := Option.some.inj declared
      obtain rfl := Option.some.inj found
      exact ⟨⟨by rw [node]; rfl, .inl rfl⟩, rfl⟩
    | cons name path =>
      obtain ⟨entry, search, further⟩ := Tree.follow?_branch_eq_some_iff.1 found
      obtain ⟨child, first, -, below⟩ :=
        child?_of_compiled (fun _ _ compiledFrom => compiledFrom.1) related search
      rw [at?, node, Node.children, first] at declared
      by_cases bounded : child.hasBoundary scope
      · rw [if_pos bounded] at below
        exact (below path position place declared further).of_child bounded declared
      · -- A child without a boundary is a leaf, and no path goes on from there.
        rw [if_neg bounded] at below
        obtain ⟨leaf, made, same⟩ := below
        rw [same] at further
        obtain ⟨rfl, rfl⟩ := Tree.follow?_leaf_eq_some_iff.1 further
        obtain rfl := Option.some.inj declared
        simp [IsDecided, bounded]

/-- The place at the end of a path in a compiled tree mirrors the position that is declared
there. -/
structure Mirrors (scope : Scope) (mount : Mount) (path : List String) (position : Structure)
    (place : Tree CompiledLeaf) : Prop where
  /-- It is a branch exactly if a shape is declared and, below the whole, named children lead from
  the position to a boundary. -/
  branch_iff : place.isLeaf = false ↔ (position.inner scope).tag = .shape ∧
    (path = [] ∨ ∃ met, position.LeadsToBoundary scope met)
  /-- A branch is at the location of the path, is marked if it is the whole or a boundary is
  declared, and has the declared names, in order. -/
  branch : ∀ location boundary children, place = .branch location boundary children →
    location = Location.descend mount.location path ∧
    (boundary = true ↔ path = [] ∨ (position.resolve scope).isBoundary = true) ∧
    children.map (·.1) = (position.inner scope).children.map (·.1)
  /-- A leaf is at the location of the path, updates a shape, removes items of an array, and is read
  along the path. -/
  leaf : ∀ compiled, place = .leaf compiled →
    compiled.leaf.location = Location.descend mount.location path ∧
    (compiled.leaf.actions.supports .update = true ↔ (position.inner scope).tag = .shape) ∧
    (compiled.leaf.actions.supports .removeAtIndex = true ↔
      (position.inner scope).tag = .arrayOf) ∧
    ∀ host, compiled.selector host = (mount.selector host).bind (Selector.path path)

/-- A place mirrors the position that decides it and that it is compiled from, if the search from
the position finds what is declared. -/
theorem Mirrors.of_isDecided {mount : Mount} {path : List String} {place : Tree CompiledLeaf}
    (complete : position.hasBoundary scope = true ↔ ∃ met, position.LeadsToBoundary scope met)
    (decided : IsDecided scope path true position place)
    (placed : position.CompiledTo scope (mount.descend path) place) :
    Mirrors scope mount path position place := by
  cases place with
  | leaf compiled =>
    refine ⟨?_, nofun, ?_⟩
    · rw [← complete]
      exact iff_of_false (by simp [Tree.isLeaf]) decided
    · intro leaf same
      obtain rfl := Tree.leaf.inj same
      obtain ⟨container, isFor, rfl⟩ := eq_of_compileLeaf placed
      obtain ⟨shape, array⟩ := isFor.kind_iff
      exact ⟨mount.location_descend path, LeafActions.supports_update_iff.trans shape,
        LeafActions.supports_removeAtIndex_iff.trans array, mount.selector_descend path⟩
  | branch location boundary children =>
    obtain ⟨shaped, marked⟩ := decided
    obtain ⟨located, names⟩ := placed
    refine ⟨?_, ?_, nofun⟩
    · rw [← complete]
      exact iff_of_true rfl shaped
    · intro _ _ _ same
      obtain ⟨rfl, rfl, rfl⟩ := Tree.branch.inj same
      refine ⟨by rw [located, mount.location_descend], ?_, names⟩
      by_cases whole : path = [] <;> simp [marked, whole]

/-- The names that lead on from a place are those that are declared for a branch. -/
theorem Mirrors.mem_keys_iff {mount : Mount} {path : List String} {place : Tree CompiledLeaf}
    {name : String} (mirrors : Mirrors scope mount path position place) :
    name ∈ place.keys ↔
      place.isLeaf = false ∧ name ∈ (position.inner scope).children.map (·.1) := by
  cases place with
  | leaf compiled => simp [Tree.keys, Tree.children, Tree.isLeaf]
  | branch location boundary children =>
    obtain ⟨-, -, names⟩ := mirrors.branch location boundary children rfl
    rw [← names]
    simp [Tree.keys, Tree.children, Tree.isLeaf]

/-- A structure that passed the audit and in which no more different deferrals are met than may be
open is compiled at every mount, and the tree mirrors the declaration: every place of the tree
mirrors the position at the same path, and from a place one name leads on exactly if the place is a
branch and the position declares the name. -/
theorem compile_mirrors_of_audit (clean : content.audit scope = [])
    (few : content.MeetsAtMost scope maxHops) (mount : Mount) :
    ∃ tree, content.compile scope mount = some (.ok tree) ∧
      (∀ path place, tree.follow? path = some place → ∃ position,
        content.at? scope path = some position ∧ Mirrors scope mount path position place) ∧
      ∀ path name, (tree.follow? (path ++ [name])).isSome ↔
        ∃ position place, content.at? scope path = some position ∧
          tree.follow? path = some place ∧ place.isLeaf = false ∧
          name ∈ (position.inner scope).children.map (·.1) := by
  obtain ⟨tree, ends⟩ := exists_compile clean few mount
  have mirrors (path : List String) (place : Tree CompiledLeaf)
      (found : tree.follow? path = some place) : ∃ position,
      content.at? scope path = some position ∧ Mirrors scope mount path position place := by
    obtain ⟨position, declared, placed⟩ := isMirroredBy_of_compileAs ends path place found
    have decided := isDecided_of_compileAs ends path position place declared found
    obtain ⟨further, reaches⟩ := Reaches.root.exists_at? declared
    have complete := hasBoundary_iff_of_reaches few reaches
    exact ⟨position, declared, .of_isDecided complete decided placed⟩
  refine ⟨tree, ends, mirrors, fun path name => ?_⟩
  rw [Tree.follow?_concat, Option.isSome_iff_exists]
  constructor
  · rintro ⟨child, leads⟩
    obtain ⟨place, found, next⟩ := Option.bind_eq_some_iff.1 leads
    obtain ⟨position, declared, mirrored⟩ := mirrors path place found
    have member : name ∈ place.keys := Tree.isSome_get?_iff.1 (Option.isSome_of_eq_some next)
    exact ⟨position, place, declared, found, mirrored.mem_keys_iff.1 member⟩
  · rintro ⟨position, place, declared, found, named⟩
    obtain ⟨other, same, mirrored⟩ := mirrors path place found
    obtain rfl : position = other := Option.some.inj (declared.symm.trans same)
    have member : name ∈ place.keys := mirrored.mem_keys_iff.2 named
    obtain ⟨child, next⟩ := Option.isSome_iff_exists.1 (Tree.isSome_get?_iff.2 member)
    exact ⟨child, Option.bind_eq_some_iff.2 ⟨place, found, next⟩⟩

/-- A tree of numbers, by its label. -/
def numbers : Structure := .deferred (.named 0)

/-- A number under a name, as a boundary. -/
def ownPart : Structure := .boundary (.ready (.shape [("x", .scalar .number)] none none))

/-- A tree of numbers beside a part of its own. -/
def treeAndPart : Structure := .ready (.shape [("tree", numbers), ("own", ownPart)] none none)

/-- Only the label of the tree is met. -/
theorem meetsAtMost_treeAndPart : treeAndPart.MeetsAtMost numberTree maxHops := by
  let inside : Structure := .ready (.shape [("x", .scalar .number)] none none)
  let reached (position : Structure) : Prop :=
    position ∈ [treeAndPart, numbers, .scalar .number, ownPart, inside]
  have start : reached treeAndPart := List.mem_cons_self
  refine meetsAtMost_of_labels [0] (by decide) start ?_ ?_
  · intro position node part member resolves among
    simp only [reached, List.mem_cons, List.not_mem_nil, or_false] at member ⊢
    rcases member with rfl | rfl | rfl | rfl | rfl <;> obtain rfl := Option.some.inj resolves <;>
      simp only [Node.parts, List.map_cons, List.map_nil, Option.toList_none, List.append_nil,
        List.mem_cons, List.not_mem_nil, or_false] at among <;> aesop
  · intro deferral member
    have named : deferral = .named 0 := by
      simpa [reached, treeAndPart, numbers, ownPart, inside, Structure.boundary,
        Structure.scalar] using member
    exact ⟨0, List.mem_cons_self, named⟩

/-- The audit raises no issue: it meets the label of the tree again, but no boundary there. -/
theorem audit_treeAndPart : treeAndPart.audit numberTree = [] := by
  have opening : numbers.opening [] = [some 0] := rfl
  have entered : numbers.find numberTree [] =
      .found (.shape [("next", numbers), ("value", .scalar .number)] none none) := rfl
  have stopped : numbers.find numberTree [some 0] = .closed := rfl
  have again (path : List Place) :
      numbers.surveyFrom numberTree [some 0] path = [⟨path, numbers, .closed⟩] := by
    rw [surveyFrom_eq, stopped]
  have shut : numbers.reachesBoundary numberTree [some 0] = false := by
    rw [reachesBoundary_eq, stopped]
  have plain : numbers.hasBoundary numberTree = false := by
    rw [hasBoundary, reachesBoundary_eq, entered, opening]
    simp [Node.isBoundary, Node.children, shut, Structure.scalar]
  have below (path : List Place) := numbers.surveyFrom_eq numberTree [] path
  simp only [entered, opening] at below
  rw [audit_eq_nil_iff, survey, treeAndPart, surveyFrom_ready]
  simp [Node.parts, ownPart, Structure.boundary, Structure.scalar, below, again, plain,
    Visit.issueKinds, Node.explicit?, Node.isBoundary, Visit.isInArray]

/-- Beside a tree of numbers, which refers to itself, the part is a branch with its name, at its
location and marked. -/
theorem compile_mirrors_of_audit_treeAndPart :
    treeAndPart.audit numberTree = [] ∧ treeAndPart.MeetsAtMost numberTree maxHops ∧
      ∃ tree children, treeAndPart.compile numberTree ⟨.key "s", "s"⟩ = some (.ok tree) ∧
        tree.follow? ["own"] = some (.branch "s.own" true children) ∧
        children.map (·.1) = ["x"] := by
  have clean := audit_treeAndPart
  have few := meetsAtMost_treeAndPart
  obtain ⟨tree, ends, mirrors, leads⟩ := compile_mirrors_of_audit clean few ⟨.key "s", "s"⟩
  have whole : tree.isLeaf = false := by
    obtain ⟨position, declared, mirrored⟩ := mirrors [] tree rfl
    obtain rfl := Option.some.inj declared
    exact mirrored.branch_iff.2 ⟨rfl, .inl rfl⟩
  have exists_own : (tree.follow? ["own"]).isSome :=
    (leads [] "own").2 ⟨treeAndPart, tree, rfl, rfl, whole, by decide⟩
  obtain ⟨place, found⟩ := Option.isSome_iff_exists.1 exists_own
  obtain ⟨position, declared, mirrored⟩ := mirrors ["own"] place found
  obtain rfl : ownPart = position := Option.some.inj declared
  have bounded : ∃ met, ownPart.LeadsToBoundary numberTree met := ⟨[], ownPart, _, .here, rfl⟩
  have isBranch : place.isLeaf = false := mirrored.branch_iff.2 ⟨rfl, .inr bounded⟩
  cases place with
  | leaf compiled => simp [Tree.isLeaf] at isBranch
  | branch location boundary children =>
    obtain ⟨located, marked, names⟩ := mirrored.branch location boundary children rfl
    obtain rfl : boundary = true := marked.2 (.inr rfl)
    obtain rfl : location = "s.own" := located
    exact ⟨clean, few, tree, children, ends, found, names⟩

end Structure

end StateSlice
