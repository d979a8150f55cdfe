import StateSlice.Proofs.Expansion
import StateSlice.Proofs.Selection

/-!
# Projections of trees

The reducers, the actions and the selectors of a chunk are projections of one tree: the payloads of
the leaves are replaced, and nothing else. What does not depend on payloads is the `outline` of a
tree. Two trees have the same shape exactly if they have the same outline, whatever their payloads
are, so having the same shape is an equivalence. An outline shows at every path a leaf, or a branch
with its names, or nothing; where sibling names are distinct, nothing else is in an outline.
-/
namespace StateSlice.Tree

variable {α β γ : Type}

/-- Whether a branch is a boundary; a leaf is no branch. -/
def boundary? : Tree α → Option Bool
  | .leaf _ => none
  | .branch _ boundary _ => some boundary

/-- A mapped branch keeps its location. -/
theorem location?_map (f : α → β) (tree : Tree α) : (tree.map f).location? = tree.location? := by
  cases tree <;> rfl

/-- A mapped branch keeps its mark. -/
theorem boundary?_map (f : α → β) (tree : Tree α) : (tree.map f).boundary? = tree.boundary? := by
  cases tree <;> rfl

/-- The leaves of children are the leaves of each child, behind its name. -/
theorem leavesOfChildren_eq_flatMap (front : String) (children : List (String × Tree α)) :
    leavesOfChildren front children =
      children.flatMap fun child => child.2.leavesBehind (extendPath front child.1) := by
  induction children with
  | nil => rfl
  | cons child children hypothesis => rw [leavesOfChildren, hypothesis, List.flatMap_cons]

/-- The leaves of a mapped tree have the paths of the leaves of the tree, in the same order. -/
theorem leavesBehind_map (f : α → β) (tree : Tree α) (front : String) :
    (tree.map f).leavesBehind front =
      (tree.leavesBehind front).map fun leaf => (leaf.1, f leaf.2) := by
  induction tree using Tree.induct generalizing front with
  | leaf payload => rfl
  | branch location boundary children hypothesis =>
    rw [map, leavesBehind, leavesBehind, mapChildren_eq_map, leavesOfChildren_eq_flatMap,
      leavesOfChildren_eq_flatMap, List.flatMap_map, List.map_flatMap]
    exact List.flatMap_congr fun child member => hypothesis child member _

mutual
/-- What is left of a tree without payloads, locations and marks. -/
def outline : Tree α → Tree Unit
  | .leaf _ => .leaf ()
  | .branch _ _ children => .branch "" false (outlines children)

/-- The outlines of children, with their names. -/
def outlines : List (String × Tree α) → List (String × Tree Unit)
  | [] => []
  | (name, child) :: children => (name, child.outline) :: outlines children
end

/-- The outlines of children are made one by one. -/
theorem outlines_eq_map (children : List (String × Tree α)) :
    outlines children = children.map fun child => (child.1, child.2.outline) := by
  induction children with
  | nil => rfl
  | cons child children hypothesis => rw [outlines, hypothesis, List.map_cons]

/-- A name leads in an outline to the outline of what it leads to. -/
theorem get?_outline (tree : Tree α) (name : String) :
    tree.outline.get? name = (tree.get? name).map outline := by
  cases tree with
  | leaf payload => rfl
  | branch location boundary children =>
    simp only [outline, get?, Tree.children, outlines_eq_map, List.find?_map, Option.map_map]
    rfl

/-- A path leads in an outline to the outline of what it leads to. -/
theorem follow?_outline (tree : Tree α) (path : List String) :
    tree.outline.follow? path = (tree.follow? path).map outline := by
  induction path generalizing tree with
  | nil => rfl
  | cons name path hypothesis =>
    rw [follow?, follow?, get?_outline]
    cases tree.get? name with
    | none => rfl
    | some child => exact hypothesis child

/-- An outline is a leaf exactly if the tree is. -/
theorem isLeaf_outline (tree : Tree α) : tree.outline.isLeaf = tree.isLeaf := by
  cases tree <;> rfl

/-- An outline has the names of the tree. -/
theorem keys_outline (tree : Tree α) : tree.outline.keys = tree.keys := by
  cases tree with
  | leaf payload => rfl
  | branch location boundary children =>
    simp only [outline, keys, Tree.children, outlines_eq_map, List.map_map]
    rfl

/-- A mapped tree has the outline of the tree. -/
theorem outline_map (f : α → β) (tree : Tree α) : (tree.map f).outline = tree.outline := by
  induction tree using Tree.induct with
  | leaf payload => rfl
  | branch location boundary children hypothesis =>
    rw [map, outline, outline, outlines_eq_map, outlines_eq_map, mapChildren_eq_map, List.map_map]
    congr 1
    exact List.map_congr_left fun child member => Prod.ext rfl (hypothesis child member)

/-- Two trees have the same shape exactly if they have the same outline. -/
theorem sameShape_iff {tree : Tree α} {other : Tree β} :
    tree.sameShape other = true ↔ tree.outline = other.outline := by
  induction tree using Tree.induct generalizing other with
  | leaf payload => cases other <;> simp [sameShape, outline]
  | branch location boundary children hypothesis =>
    cases other with
    | leaf payload => simp [sameShape, outline]
    | branch place mark others =>
      rw [sameShape, outline, outline, Tree.branch.injEq]
      simp only [true_and]
      -- Children are compared in pairs, so both lists are taken apart together.
      induction children generalizing others with
      | nil =>
        cases others with
        | nil => simp [sameChildren, outlines]
        | cons child others =>
          obtain ⟨name, child⟩ := child
          simp [sameChildren, outlines]
      | cons child children pairs =>
        obtain ⟨name, child⟩ := child
        cases others with
        | nil => simp [sameChildren, outlines]
        | cons entry others =>
          obtain ⟨key, entry⟩ := entry
          have first : child.sameShape entry = true ↔ child.outline = entry.outline :=
            hypothesis (name, child) List.mem_cons_self
          have rest := pairs (fun child member => hypothesis child (List.mem_cons_of_mem _ member))
            others
          simp only [sameChildren, outlines, Bool.and_eq_true, beq_iff_eq, first, rest,
            List.cons.injEq, Prod.mk.injEq]

/-- Having the same shape does not depend on the order of the trees. -/
theorem sameShape_comm (tree : Tree α) (other : Tree β) :
    tree.sameShape other = other.sameShape tree := by
  rw [Bool.eq_iff_iff, sameShape_iff, sameShape_iff]
  exact eq_comm

/-- Every path leads in both trees to a leaf, or in both to a branch with the same names, or in both
nowhere. -/
def LooksLike (tree : Tree α) (other : Tree β) : Prop :=
  ∀ path, (tree.follow? path).map isLeaf = (other.follow? path).map isLeaf ∧
    (tree.follow? path).map keys = (other.follow? path).map keys

/-- A tree looks like its outline. -/
theorem looksLike_outline (tree : Tree α) : tree.LooksLike tree.outline := by
  intro path
  rw [follow?_outline]
  cases tree.follow? path with
  | none => exact ⟨rfl, rfl⟩
  | some below => simp only [Option.map_some, isLeaf_outline, keys_outline, and_self]

/-- Trees of the same shape look alike. -/
theorem looksLike_of_sameShape {tree : Tree α} {other : Tree β}
    (same : tree.sameShape other = true) : tree.LooksLike other := by
  intro path
  obtain ⟨leaves, names⟩ := looksLike_outline tree path
  obtain ⟨otherLeaves, otherNames⟩ := looksLike_outline other path
  rw [sameShape_iff.1 same] at leaves names
  exact ⟨leaves.trans otherLeaves.symm, names.trans otherNames.symm⟩

/-- In trees that look alike a name leads nowhere in both, or to trees that look alike. -/
theorem LooksLike.get?_cases {tree : Tree α} {other : Tree β} (alike : tree.LooksLike other)
    (name : String) :
    (tree.get? name = none ∧ other.get? name = none) ∨
      ∃ child another, tree.get? name = some child ∧ other.get? name = some another ∧
        child.LooksLike another := by
  have below (path : List String) := alike (name :: path)
  simp only [follow?] at below
  cases found : tree.get? name with
  | none =>
    cases also : other.get? name with
    | none => exact .inl ⟨rfl, rfl⟩
    | some another => simpa [found, also, follow?] using (below []).1
  | some child =>
    cases also : other.get? name with
    | none => simpa [found, also, follow?] using (below []).1
    | some another =>
      rw [found, also] at below
      exact .inr ⟨child, another, rfl, rfl, below⟩

/-- Children with distinct names are what their names lead to. -/
theorem map_children_of_nodup {tree : Tree α} (distinct : tree.keys.Nodup) (f : Tree α → γ) :
    (tree.children.map fun child => (child.1, some (f child.2))) =
      tree.keys.map fun name => (name, (tree.get? name).map f) := by
  rw [keys, List.map_map]
  refine List.map_congr_left fun child member => ?_
  have first : tree.get? child.1 = some child.2 := by
    rw [get?, find?_of_mem distinct member, Option.map_some]
  rw [Function.comp_apply, first, Option.map_some]

/-- If the sibling names of one of them are distinct, trees that look alike have the same
outline. -/
theorem outline_eq_of_looksLike {tree : Tree α} {other : Tree β} (distinct : tree.Distinct)
    (alike : tree.LooksLike other) : tree.outline = other.outline := by
  induction tree using Tree.induct generalizing other with
  | leaf payload =>
    have leaf : true = other.isLeaf := Option.some.inj (alike []).1
    cases other with
    | leaf payload => rfl
    | branch location boundary children => simp [isLeaf] at leaf
  | branch location boundary children hypothesis =>
    have leaf : false = other.isLeaf := Option.some.inj (alike []).1
    cases other with
    | leaf payload => simp [isLeaf] at leaf
    | branch place mark others =>
      have names : (branch location boundary children).keys = (branch place mark others).keys :=
        Option.some.inj (alike []).2
      have different : (branch location boundary children).keys.Nodup := distinct [] _ rfl
      have below (name : String) :
          ((branch location boundary children).get? name).map outline =
            ((branch place mark others).get? name).map outline := by
        rcases alike.get?_cases name with ⟨found, also⟩ | ⟨child, another, found, also, further⟩
        · rw [found, also, Option.map_none, Option.map_none]
        · obtain ⟨entry, search, rfl⟩ := Option.map_eq_some_iff.1 found
          have same := hypothesis entry (List.mem_of_find?_eq_some search) (distinct.get? found)
            further
          rw [found, also, Option.map_some, Option.map_some, same]
      have each : (children.map fun child => (child.1, some child.2.outline)) =
          others.map fun child => (child.1, some child.2.outline) := by
        have left := map_children_of_nodup different outline
        have right := map_children_of_nodup (names ▸ different) outline
        rw [Tree.children] at left right
        rw [left, right, names]
        exact List.map_congr_left fun name _ => Prod.ext rfl (below name)
      have wrapped : Function.Injective fun child : String × Tree Unit => (child.1, some child.2) :=
        fun left right same => by simpa [Prod.ext_iff] using same
      rw [outline, outline, outlines_eq_map, outlines_eq_map]
      congr 1
      apply List.map_injective_iff.2 wrapped
      rw [List.map_map, List.map_map]
      exact each

/-- What is seen at a path of a mapped tree is what is seen at the path of the tree, if replacing
payloads does not change it. -/
theorem map_follow?_map {f : α → β} {own : Tree α → γ} {seen : Tree β → γ}
    (same : ∀ below, seen (below.map f) = own below) (tree : Tree α) (path : List String) :
    ((tree.map f).follow? path).map seen = (tree.follow? path).map own := by
  rw [follow?_map, Option.map_map]
  exact congrArg (Option.map · _) (funext same)

/-- Replacing payloads keeps everything else of a tree. A mapped tree has the same shape; every path
leads in it to the image of what it leads to in the tree, with the same location, mark and names, or
in both nowhere; its leaves are the images of the leaves at the same paths, in order; and replacing
twice is replacing once. Having the same shape is an equivalence, also of trees with payloads of
different types. Trees of the same shape look alike at every path, and trees that look alike have
the same shape if the sibling names of one of them are distinct. -/
theorem map_keeps_tree {δ ε : Type} (tree : Tree α) (f : α → β) (g : β → γ) (other : Tree δ)
    (third : Tree ε) :
    tree.sameShape (tree.map f) = true ∧
    (∀ path, (tree.map f).follow? path = (tree.follow? path).map (map f) ∧
      ((tree.map f).follow? path).map isLeaf = (tree.follow? path).map isLeaf ∧
      ((tree.map f).follow? path).map location? = (tree.follow? path).map location? ∧
      ((tree.map f).follow? path).map boundary? = (tree.follow? path).map boundary? ∧
      ((tree.map f).follow? path).map keys = (tree.follow? path).map keys) ∧
    (tree.map f).leaves = tree.leaves.map (fun leaf => (leaf.1, f leaf.2)) ∧
    (tree.map f).map g = tree.map (fun payload => g (f payload)) ∧
    tree.sameShape tree = true ∧
    tree.sameShape other = other.sameShape tree ∧
    (tree.sameShape other = true → other.sameShape third = true → tree.sameShape third = true) ∧
    (tree.sameShape other = true → tree.LooksLike other) ∧
    (tree.Distinct → tree.LooksLike other → tree.sameShape other = true) := by
  refine ⟨sameShape_iff.2 (outline_map f tree).symm, fun path => ?_, leavesBehind_map f tree "",
    map_map f g tree, sameShape_iff.2 rfl, sameShape_comm tree other, fun first second => ?_,
    looksLike_of_sameShape, fun distinct alike => ?_⟩
  · exact ⟨follow?_map f tree path, map_follow?_map (isLeaf_map f) tree path,
      map_follow?_map (location?_map f) tree path, map_follow?_map (boundary?_map f) tree path,
      map_follow?_map (keys_map f) tree path⟩
  · exact sameShape_iff.2 ((sameShape_iff.1 first).trans (sameShape_iff.1 second))
  · exact sameShape_iff.2 (outline_eq_of_looksLike distinct alike)

/-- The actions and the selectors of the chunk with two names look alike, as both look like the tree
that they are made of, and the actions stand at the paths of its leaves. -/
theorem map_keeps_tree_twoNames :
    let tree := Chunk.twoNamesChunk.tree
    let actions := Chunk.twoNamesChunk.actions
    let selectors := Chunk.twoNamesChunk.selectors
    tree.Distinct ∧ actions.sameShape selectors = true ∧ actions.LooksLike selectors ∧
      tree.sameShape selectors = true ∧
      actions.leaves.map (·.1) = tree.leaves.map (·.1) := by
  intro tree actions selectors
  have distinct : tree.Distinct :=
    Chunk.distinct_of_build Chunk.build_twoNames Chunk.distinctNames_twoNames
  obtain ⟨ofActions, -, leaves, -, -, comm, -, -, -⟩ :=
    map_keeps_tree tree (·.leaf.actions) id actions actions
  obtain ⟨ofSelectors, -⟩ := map_keeps_tree tree (·.selector) id actions actions
  obtain ⟨-, -, -, -, -, -, trans, -, -⟩ := map_keeps_tree actions id id tree selectors
  have same : actions.sameShape selectors = true := trans (comm ▸ ofActions) ofSelectors
  obtain ⟨-, -, -, -, -, -, -, look, -⟩ := map_keeps_tree actions id id selectors tree
  obtain ⟨-, -, -, -, -, -, -, lookOfTree, back⟩ := map_keeps_tree tree id id selectors actions
  refine ⟨distinct, same, look same, back distinct (lookOfTree ofSelectors), ?_⟩
  have paths := congrArg (List.map (·.1)) leaves
  rwa [List.map_map] at paths

end StateSlice.Tree
