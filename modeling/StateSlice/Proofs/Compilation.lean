import Mathlib.Data.List.Forall2
import StateSlice.Compile
import StateSlice.Proofs.Resolution

/-!
# Compiled structures

What is known of compiling a structure is derived from two principles. By `compileAs_induct`, what
holds of leaves, and of branches if it holds of the parts, holds of every compiled tree, and there
are no errors. By `isSome_compileAs_iff`, compiling ends exactly where the relation `GoesOn`, from a
position to the positions that are compiled in their turn, does not go on forever.
-/
namespace StateSlice

open Json (Value)

/-- If no step fails, and each comes to something that is related to its input, then mapping over a
list does not fail either, and comes to related lists. -/
theorem mapM_run_induct {α β ε : Type} {R : α → β → Prop} {step : α → ExceptT ε Option β}
    {inputs : List α} (steps : ∀ input ∈ inputs, ∀ result, (step input).run = some result →
      ∃ output, result = .ok output ∧ R input output)
    {result : Except ε (List β)} (ends : (inputs.mapM step).run = some result) :
    ∃ outputs, result = .ok outputs ∧ List.Forall₂ R inputs outputs := by
  induction inputs generalizing result with
  | nil =>
    obtain rfl : .ok [] = result := by simpa using ends
    exact ⟨[], rfl, .nil⟩
  | cons input inputs hypothesis =>
    rw [List.mapM_cons, ExceptT.run_bind] at ends
    obtain ⟨first, firstEnds, rest⟩ := Option.bind_eq_some_iff.1 ends
    obtain ⟨output, rfl, firstRelated⟩ := steps input List.mem_cons_self first firstEnds
    simp only [ExceptT.run_bind] at rest
    obtain ⟨later, laterEnds, rest⟩ := Option.bind_eq_some_iff.1 rest
    obtain ⟨outputs, rfl, laterRelated⟩ :=
      hypothesis (fun input member => steps input (List.mem_cons_of_mem _ member)) laterEnds
    obtain rfl : .ok (output :: outputs) = result := by simpa using rest
    exact ⟨_, rfl, .cons firstRelated laterRelated⟩

/-- Where a step ends with an output and no error, what follows goes on from the output. -/
theorem run_bind_of_run {α β ε : Type} {first : ExceptT ε Option α}
    {next : α → ExceptT ε Option β} {output : α} (ends : first.run = some (.ok output)) :
    (first >>= next).run = (next output).run := by
  rw [ExceptT.run_bind, ends]
  rfl

/-- If each step ends with an output and no error, mapping over a list ends with the outputs. -/
theorem mapM_run_eq {α β ε : Type} {step : α → ExceptT ε Option β} {inputs : List α}
    {outputs : List β} (each : List.Forall₂
      (fun input output => (step input).run = some (.ok output)) inputs outputs) :
    (inputs.mapM step).run = some (.ok outputs) := by
  induction each with
  | nil => rfl
  | cons first _ hypothesis =>
    rw [List.mapM_cons, run_bind_of_run first, run_bind_of_run hypothesis]
    rfl

/-- If each item is related to an output, the list is related item by item to a list of outputs. -/
theorem exists_forall₂ {α β : Type} {R : α → β → Prop} {inputs : List α}
    (each : ∀ input ∈ inputs, ∃ output, R input output) :
    ∃ outputs, List.Forall₂ R inputs outputs := by
  induction inputs with
  | nil => exact ⟨[], .nil⟩
  | cons input inputs hypothesis =>
    obtain ⟨output, first⟩ := each input List.mem_cons_self
    obtain ⟨outputs, later⟩ := hypothesis fun input member =>
      each input (List.mem_cons_of_mem _ member)
    exact ⟨_, .cons first later⟩

/-- Each member of a list is related to a member of every list that is related item by item. -/
theorem exists_mem_of_forall₂ {α β : Type} {R : α → β → Prop} {inputs : List α} {outputs : List β}
    (related : List.Forall₂ R inputs outputs) {input : α} (member : input ∈ inputs) :
    ∃ output ∈ outputs, R input output := by
  induction related with
  | nil => simp at member
  | cons first _ hypothesis =>
    rcases List.mem_cons.1 member with rfl | later
    · exact ⟨_, List.mem_cons_self, first⟩
    · obtain ⟨output, inside, known⟩ := hypothesis later
      exact ⟨output, List.mem_cons_of_mem _ inside, known⟩

/-- A node with named children is a shape. -/
theorem Node.tag_of_mem_children {node : Node} {child : String × Structure}
    (member : child ∈ node.children) : node.tag = .shape := by
  cases node with
  | shape children wildcard explicit => rfl
  | _ => exact absurd member List.not_mem_nil

/-- A container is what a leaf of a node needs. -/
inductive Container.IsFor (node : Node) : Container → Prop
  /-- A scalar is put where its validator accepts it. -/
  | value {validator : Validator} (owned : node.ownValidator? = some validator) :
      IsFor node (.value validator)
  /-- A shape holds an object. -/
  | shape {children : List (String × Structure)} {wildcard : Option Structure}
      {explicit : Option Value} (shaped : node = .shape children wildcard explicit) :
      IsFor node .shape
  /-- An array structure holds an array. -/
  | array {element : Structure} {explicit : Option Value}
      (listed : node = .arrayOf element explicit) : IsFor node .array

/-- Every structure has a leaf at every location, with the container for its inner node, which
starts from the default of the structure. -/
theorem Leaf.of_eq_ok (scope : Scope) (content : Structure) (location : String) :
    ∃ container : Container, container.IsFor (content.inner scope) ∧
      Leaf.of scope content location =
        .ok ⟨scope, content, container, content.defaultValue scope, location⟩ := by
  have plain := content.isBoundary_inner scope
  cases node : content.inner scope with
  | scalar kind explicit =>
    refine ⟨.value (.ofKind kind), .value rfl, ?_⟩
    simp [Leaf.of, Structure.defaultValue, node, Node.validator, Node.validator?,
      Node.ownValidator?, Node.defaultValue, Except.map]
  | custom check message explicit =>
    refine ⟨.value (.ofCheck check), .value rfl, ?_⟩
    simp [Leaf.of, Structure.defaultValue, node, Node.validator, Node.validator?,
      Node.ownValidator?, Node.defaultValue, Except.map]
  | shape children wildcard explicit =>
    refine ⟨.shape, .shape rfl, ?_⟩
    simp [Leaf.of, Structure.defaultValue, node, Node.defaultValue]
  | arrayOf element explicit =>
    refine ⟨.array, .array rfl, ?_⟩
    simp [Leaf.of, Structure.defaultValue, node, Node.defaultValue]
  | boundary inner => simp [node, Node.isBoundary] at plain

namespace Structure

variable {scope : Scope}

/-- A leaf is compiled without an error, at the location of its mount, and starts from the default
of its structure. -/
theorem compileLeaf_eq_ok (scope : Scope) (content : Structure) (mount : Mount) :
    ∃ container, content.compileLeaf scope mount =
      .ok ⟨⟨scope, content, container, content.defaultValue scope, mount.location⟩,
        mount.selector⟩ := by
  obtain ⟨container, -, made⟩ := Leaf.of_eq_ok scope content mount.location
  exact ⟨container, by rw [compileLeaf, made]; rfl⟩

/-- A compiled leaf has the container for the inner node, and everything else as the structure and
the mount have it. -/
theorem eq_of_compileLeaf {content : Structure} {mount : Mount} {compiled : CompiledLeaf}
    (made : content.compileLeaf scope mount = .ok compiled) :
    ∃ container : Container, container.IsFor (content.inner scope) ∧
      compiled = ⟨⟨scope, content, container, content.defaultValue scope, mount.location⟩,
        mount.selector⟩ := by
  obtain ⟨container, isFor, known⟩ := Leaf.of_eq_ok scope content mount.location
  rw [compileLeaf, known] at made
  exact ⟨container, isFor, (Except.ok.inj made).symm⟩

/-- What a child of a shape is compiled to: a named tree with a property if the child has a
boundary, and a leaf under the name otherwise. -/
def CompiledChild (scope : Scope) (motive : Bool → Structure → Mount → Tree CompiledLeaf → Prop)
    (mount : Mount) (child : String × Structure) (compiled : String × Tree CompiledLeaf) : Prop :=
  compiled.1 = child.1 ∧
    if child.2.hasBoundary scope then
      motive (child.2.resolve scope).isBoundary child.2 (mount.child child.1) compiled.2
    else ∃ leaf, child.2.compileLeaf scope (mount.child child.1) = .ok leaf ∧
      compiled.2 = .leaf leaf

/-- Induction over what a structure is compiled to. There is no error to be considered. -/
theorem compileAs_induct {motive : Bool → Structure → Mount → Tree CompiledLeaf → Prop}
    (leaf : ∀ boundary content mount compiled, (content.inner scope).tag ≠ .shape →
      content.compileLeaf scope mount = .ok compiled →
      motive boundary content mount (.leaf compiled))
    (branch : ∀ boundary content mount children wildcard explicit compiled,
      content.inner scope = .shape children wildcard explicit →
      List.Forall₂ (CompiledChild scope motive mount) children compiled →
      motive boundary content mount (.branch mount.location boundary compiled))
    {boundary : Bool} {content : Structure} {mount : Mount}
    {result : Except UnknownType (Tree CompiledLeaf)}
    (ends : content.compileAs scope boundary mount = some result) :
    ∃ tree, result = .ok tree ∧ motive boundary content mount tree := by
  refine compileAs.partial_correctness scope
    (fun boundary content mount result => ∃ tree, result = .ok tree ∧
      motive boundary content mount tree) ?_ boundary content mount result ends
  intro recurse hypothesis boundary content mount result ends
  have single (plain : (content.inner scope).tag ≠ .shape)
      (ends : some (Tree.leaf <$> content.compileLeaf scope mount) = some result) :
      ∃ tree, result = .ok tree ∧ motive boundary content mount tree := by
    obtain ⟨container, made⟩ := content.compileLeaf_eq_ok scope mount
    rw [made] at ends
    exact ⟨_, (Option.some.inj ends).symm, leaf _ _ _ _ plain made⟩
  cases node : content.inner scope with
  | shape children wildcard explicit =>
    simp only [node, ExceptT.run_bind] at ends
    obtain ⟨first, mapped, rest⟩ := Option.bind_eq_some_iff.1 ends
    obtain ⟨compiled, rfl, related⟩ := by
      refine mapM_run_induct (R := CompiledChild scope motive mount) ?_ mapped
      rintro ⟨name, child⟩ - outcome childEnds
      rw [ExceptT.run_bind] at childEnds
      obtain ⟨tree, treeEnds, rest⟩ := Option.bind_eq_some_iff.1 childEnds
      by_cases bounded : child.hasBoundary scope
      · simp only [bounded, if_true] at treeEnds
        obtain ⟨tree, rfl, known⟩ := hypothesis _ _ _ _ treeEnds
        obtain rfl : .ok (name, tree) = outcome := by simpa using rest
        exact ⟨_, rfl, rfl, by rw [if_pos bounded]; exact known⟩
      · obtain ⟨container, made⟩ := child.compileLeaf_eq_ok scope (mount.child name)
        simp only [bounded, made] at treeEnds
        obtain rfl := Option.some.inj treeEnds
        obtain rfl : .ok (name, _) = outcome := by simpa using rest
        exact ⟨_, rfl, rfl, by rw [if_neg bounded]; exact ⟨_, made, rfl⟩⟩
    obtain rfl : .ok (.branch mount.location boundary compiled) = result := by simpa using rest
    exact ⟨_, rfl, branch _ _ _ _ _ _ _ node related⟩
  | _ =>
    refine single (fun tagged => ?_) (by simpa only [node] using ends)
    obtain ⟨children, wildcard, explicit, shaped⟩ := Node.eq_shape_of_tag tagged
    simp [node] at shaped

/-- Induction over the tree that a structure is compiled to. -/
theorem tree_induct {motive : Bool → Structure → Mount → Tree CompiledLeaf → Prop}
    (leaf : ∀ boundary content mount compiled, (content.inner scope).tag ≠ .shape →
      content.compileLeaf scope mount = .ok compiled →
      motive boundary content mount (.leaf compiled))
    (branch : ∀ boundary content mount children wildcard explicit compiled,
      content.inner scope = .shape children wildcard explicit →
      List.Forall₂ (CompiledChild scope motive mount) children compiled →
      motive boundary content mount (.branch mount.location boundary compiled))
    {boundary : Bool} {content : Structure} {mount : Mount} {tree : Tree CompiledLeaf}
    (ends : content.compileAs scope boundary mount = some (.ok tree)) :
    motive boundary content mount tree := by
  obtain ⟨same, compiled, known⟩ := compileAs_induct leaf branch ends
  obtain rfl := Except.ok.inj compiled
  exact known

/-- What holds of the leaves of all structures, and of branches if it holds of the children, holds
of every compiled tree. A child is a tree of its own or a leaf; here it makes no difference. -/
theorem compiled_induct {motive : Structure → Mount → Tree CompiledLeaf → Prop}
    (leaf : ∀ content mount compiled, content.compileLeaf scope mount = .ok compiled →
      motive content mount (.leaf compiled))
    (branch : ∀ boundary content mount children wildcard explicit compiled,
      content.inner scope = .shape children wildcard explicit →
      List.Forall₂ (fun child tree => tree.1 = child.1 ∧
        motive child.2 (mount.child child.1) tree.2) children compiled →
      motive content mount (.branch mount.location boundary compiled))
    {boundary : Bool} {content : Structure} {mount : Mount} {tree : Tree CompiledLeaf}
    (ends : content.compileAs scope boundary mount = some (.ok tree)) :
    motive content mount tree := by
  refine tree_induct (motive := fun _ content mount tree => motive content mount tree) ?_ ?_ ends
  · intro boundary content mount compiled plain made
    exact leaf content mount compiled made
  · intro boundary content mount children wildcard explicit compiled node related
    refine branch boundary content mount children wildcard explicit compiled node ?_
    refine related.imp fun child tree compiledFrom => ⟨compiledFrom.1, ?_⟩
    by_cases bounded : child.2.hasBoundary scope
    · have below := compiledFrom.2
      rwa [if_pos bounded] at below
    · have below := compiledFrom.2
      rw [if_neg bounded] at below
      obtain ⟨compiled, made, same⟩ := below
      rw [same]
      exact leaf child.2 _ compiled made

/-- What is no shape is compiled to its leaf. -/
theorem compileAs_eq_leaf {content : Structure} {boundary : Bool} {mount : Mount}
    {leaf : CompiledLeaf} (plain : (content.inner scope).tag ≠ .shape)
    (made : content.compileLeaf scope mount = .ok leaf) :
    content.compileAs scope boundary mount = some (.ok (.leaf leaf)) := by
  rw [compileAs]
  split
  · next node => exact absurd (by rw [node]; rfl) plain
  · rw [made]
    rfl

/-- A child of a shape is compiled, to a tree under its name. -/
def CompiledUnder (scope : Scope) (mount : Mount) (child : String × Structure)
    (compiled : String × Tree CompiledLeaf) : Prop :=
  CompiledChild scope (fun boundary child mount tree =>
    child.compileAs scope boundary mount = some (.ok tree)) mount child compiled

/-- A shape is compiled to the branch of what its children are compiled to. -/
theorem compileAs_eq_branch {content : Structure} {boundary : Bool} {mount : Mount}
    {children : List (String × Structure)} {wildcard : Option Structure} {explicit : Option Value}
    {compiled : List (String × Tree CompiledLeaf)}
    (node : content.inner scope = .shape children wildcard explicit)
    (each : List.Forall₂ (CompiledUnder scope mount) children compiled) :
    content.compileAs scope boundary mount =
      some (.ok (.branch mount.location boundary compiled)) := by
  rw [compileAs, node]
  refine (run_bind_of_run (mapM_run_eq (each.imp ?_))).trans rfl
  rintro ⟨name, child⟩ ⟨same, tree⟩ ⟨named, known⟩
  obtain rfl : same = name := named
  by_cases bounded : child.hasBoundary scope
  · rw [if_pos bounded] at known
    refine (run_bind_of_run ?_).trans rfl
    simp only [bounded, if_true]
    exact known
  · rw [if_neg bounded] at known
    obtain ⟨leaf, made, rfl⟩ := known
    refine (run_bind_of_run ?_).trans rfl
    simp only [bounded, made]
    rfl

/-- The positions that are compiled in their turn when a position is: the children that have a
boundary. -/
def GoesOn (scope : Scope) (next content : Structure) : Prop :=
  ∃ name, (name, next) ∈ (content.inner scope).children ∧ next.hasBoundary scope = true

/-- A position from which compiling ends does not go on forever. -/
theorem acc_of_compileAs {boundary : Bool} {content : Structure} {mount : Mount}
    {result : Except UnknownType (Tree CompiledLeaf)}
    (ends : content.compileAs scope boundary mount = some result) : Acc (GoesOn scope) content := by
  obtain ⟨-, -, accessible⟩ := by
    refine compileAs_induct
      (motive := fun _ content _ _ => Acc (GoesOn scope) content) ?_ ?_ ends
    · rintro - content - - plain -
      exact ⟨_, fun next ⟨name, member, _⟩ => absurd (Node.tag_of_mem_children member) plain⟩
    · intro boundary content mount children wildcard explicit compiled node related
      refine ⟨_, fun next ⟨name, member, bounded⟩ => ?_⟩
      rw [node] at member
      obtain ⟨tree, -, -, known⟩ := exists_mem_of_forall₂ related member
      rwa [if_pos bounded] at known
  exact accessible

/-- Compiling ends from a position that does not go on forever. -/
theorem exists_compileAs {content : Structure} (accessible : Acc (GoesOn scope) content) :
    ∀ boundary mount, ∃ tree, content.compileAs scope boundary mount = some (.ok tree) := by
  induction accessible with
  | intro content _ hypothesis =>
    intro boundary mount
    by_cases shaped : (content.inner scope).tag = .shape
    · obtain ⟨children, wildcard, explicit, node⟩ := Node.eq_shape_of_tag shaped
      have below : ∀ child ∈ children, ∃ compiled, CompiledUnder scope mount child compiled := by
        rintro ⟨name, child⟩ member
        by_cases bounded : child.hasBoundary scope
        · obtain ⟨tree, made⟩ := hypothesis child ⟨name, node ▸ member, bounded⟩
            (child.resolve scope).isBoundary (mount.child name)
          exact ⟨(name, tree), rfl, by rwa [if_pos bounded]⟩
        · obtain ⟨container, made⟩ := child.compileLeaf_eq_ok scope (mount.child name)
          exact ⟨(name, .leaf _), rfl, by rw [if_neg bounded]; exact ⟨_, made, rfl⟩⟩
      obtain ⟨compiled, each⟩ := exists_forall₂ below
      exact ⟨_, compileAs_eq_branch node each⟩
    · obtain ⟨container, made⟩ := content.compileLeaf_eq_ok scope mount
      exact ⟨_, compileAs_eq_leaf shaped made⟩

/-- Compiling a position ends exactly if it does not go on forever. -/
theorem isSome_compileAs_iff {boundary : Bool} {content : Structure} {mount : Mount} :
    (content.compileAs scope boundary mount).isSome ↔ Acc (GoesOn scope) content := by
  constructor
  · intro ends
    obtain ⟨result, ends⟩ := Option.isSome_iff_exists.1 ends
    exact acc_of_compileAs ends
  · intro accessible
    obtain ⟨tree, ends⟩ := exists_compileAs accessible boundary mount
    exact Option.isSome_of_eq_some ends

end Structure

end StateSlice
