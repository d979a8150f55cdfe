import StateSlice.Proofs.Projections

/-!
# Paths of leaves

The leaves of a tree are listed depth first, each with its path written as one text. Where a leaf
stands is told by the places of the children that lead to it, which differ also among siblings of
one name; the listing has every leaf once, in the order of the places. While the text of a path is
collected, the empty text stands for no name at all. So the names of a path are written with points
between them from the first name on that is not empty, and empty names in front are left out.
-/
namespace StateSlice.Tree

variable {α : Type}

/-- A leaf of a tree, with the way to it. -/
structure PlacedLeaf (α : Type) where
  /-- The places of the children on the way. -/
  position : List Nat
  /-- The names of the children on the way. -/
  names : List String
  /-- The payload of the leaf. -/
  payload : α

/-- A leaf, seen from one child further up. -/
def PlacedLeaf.below (place : Nat) (name : String) (leaf : PlacedLeaf α) : PlacedLeaf α :=
  ⟨place :: leaf.position, name :: leaf.names, leaf.payload⟩

/-- A tree holds a leaf: it is the leaf, or a child at some place holds it. -/
inductive Holds : Tree α → PlacedLeaf α → Prop
  /-- A leaf holds itself. -/
  | leaf {payload : α} : Holds (.leaf payload) ⟨[], [], payload⟩
  /-- A branch holds what its children hold. -/
  | child {location name : String} {boundary : Bool} {children : List (String × Tree α)}
      {place : Nat} {child : Tree α} {leaf : PlacedLeaf α} :
      children[place]? = some (name, child) → Holds child leaf →
      Holds (.branch location boundary children) (leaf.below place name)

mutual
/-- The leaves of a tree with the ways to them, depth first. -/
def placedLeaves : Tree α → List (PlacedLeaf α)
  | .leaf payload => [⟨[], [], payload⟩]
  | .branch _ _ children => placedLeavesFrom 0 children

/-- The leaves of children with the ways to them, if the first child is at the given place. -/
def placedLeavesFrom (place : Nat) : List (String × Tree α) → List (PlacedLeaf α)
  | [] => []
  | (name, child) :: children =>
    child.placedLeaves.map (.below place name) ++ placedLeavesFrom (place + 1) children
end

/-- The leaves of children are the leaves of each child, below its place and its name. -/
theorem placedLeavesFrom_eq_flatMap (place : Nat) (children : List (String × Tree α)) :
    placedLeavesFrom place children = (children.zipIdx place).flatMap fun child =>
      child.1.2.placedLeaves.map (.below child.2 child.1.1) := by
  induction children generalizing place with
  | nil => rfl
  | cons child children hypothesis =>
    rw [placedLeavesFrom, hypothesis, List.zipIdx_cons, List.flatMap_cons]

/-- Exactly the leaves that the tree holds are listed. -/
theorem mem_placedLeaves_iff {tree : Tree α} {leaf : PlacedLeaf α} :
    leaf ∈ tree.placedLeaves ↔ tree.Holds leaf := by
  induction tree using Tree.induct generalizing leaf with
  | leaf payload =>
    rw [placedLeaves, List.mem_singleton]
    constructor
    · rintro rfl
      exact .leaf
    · rintro ⟨⟩
      rfl
  | branch location boundary children hypothesis =>
    rw [placedLeaves, placedLeavesFrom_eq_flatMap, List.mem_flatMap]
    constructor
    · rintro ⟨⟨⟨name, child⟩, place⟩, among, listed⟩
      obtain ⟨inside, held, rfl⟩ := List.mem_map.1 listed
      have found : children[place]? = some (name, child) := List.mem_zipIdx_iff_getElem?.1 among
      exact .child found ((hypothesis _ (List.mem_of_getElem? found)).1 held)
    · rintro (_ | @⟨_, name, _, _, place, child, inside, found, held⟩)
      have listed := (hypothesis _ (List.mem_of_getElem? found)).2 held
      exact ⟨((name, child), place), List.mem_zipIdx_iff_getElem?.2 found,
        List.mem_map_of_mem listed⟩

/-- The positions of the listed leaves ascend, from the first child to the last at every depth. -/
theorem ascending_placedLeaves (tree : Tree α) :
    tree.placedLeaves.Pairwise (·.position < ·.position) := by
  induction tree using Tree.induct with
  | leaf payload => exact List.pairwise_singleton _ _
  | branch location boundary children hypothesis =>
    rw [placedLeaves, placedLeavesFrom_eq_flatMap, List.pairwise_flatMap]
    have places : children.zipIdx.Pairwise (·.2 < ·.2) := by
      rw [← List.pairwise_map, List.zipIdx_map_snd]
      exact List.pairwise_lt_range'
    refine ⟨fun child among => ?_, places.imp ?_⟩
    · rw [List.pairwise_map]
      refine (hypothesis child.1 (List.fst_mem_of_mem_zipIdx among)).imp ?_
      intro left right less
      exact List.cons_lt_cons_iff.2 (.inr ⟨rfl, less⟩)
    · intro left right less first ofLeft second ofRight
      obtain ⟨inside, -, rfl⟩ := List.mem_map.1 ofLeft
      obtain ⟨other, -, rfl⟩ := List.mem_map.1 ofRight
      exact List.cons_lt_cons_iff.2 (.inl less)

/-- No leaf is listed twice. -/
theorem nodup_placedLeaves (tree : Tree α) : tree.placedLeaves.Nodup := by
  refine tree.ascending_placedLeaves.imp ?_
  rintro leaf _ less rfl
  exact List.lt_irrefl _ less

/-- The leaves behind a text are the leaves of the tree, each with the text extended by the names on
the way to it. -/
theorem leavesBehind_eq_map (front : String) (tree : Tree α) :
    tree.leavesBehind front =
      tree.placedLeaves.map fun leaf => (leaf.names.foldl extendPath front, leaf.payload) := by
  induction tree using Tree.induct generalizing front with
  | leaf payload => rfl
  | branch location boundary children hypothesis =>
    rw [leavesBehind, leavesOfChildren_eq_flatMap, placedLeaves, placedLeavesFrom_eq_flatMap,
      List.map_flatMap]
    have unplaced : children.flatMap (fun child =>
        child.2.leavesBehind (extendPath front child.1)) =
        children.zipIdx.flatMap fun child =>
          child.1.2.leavesBehind (extendPath front child.1.1) := by
      conv_lhs => rw [← List.zipIdx_map_fst 0 children, List.flatMap_map]
    rw [unplaced]
    refine List.flatMap_congr fun child among => ?_
    rw [hypothesis child.1 (List.fst_mem_of_mem_zipIdx among), List.map_map]
    rfl

/-- The names of a path that its text shows: all from the first on that is not empty. -/
def shownNames (names : List String) : List String := names.dropWhile (·.isEmpty)

/-- The text of a path. -/
def pathText (names : List String) : String := ".".intercalate (shownNames names)

/-- An empty name in front is not shown. -/
@[simp]
theorem shownNames_empty (names : List String) : shownNames ("" :: names) = shownNames names := rfl

/-- From a name on that is not empty all names are shown. -/
theorem shownNames_of_ne {name : String} (written : name ≠ "") (names : List String) :
    shownNames (name :: names) = name :: names :=
  List.dropWhile_cons_of_neg (by simpa using written)

/-- The first name that is shown is not empty. -/
theorem ne_of_shownNames {names rest : List String} {name : String}
    (shown : shownNames names = name :: rest) : name ≠ "" := by
  have first := List.head?_dropWhile_not (fun name : String => name.isEmpty) names
  rw [shownNames] at shown
  rw [shown] at first
  simpa using first

/-- Behind a text that is not empty every name is written, with a point before it. -/
theorem foldl_extendPath_of_ne {front : String} (written : front ≠ "") (names : List String) :
    names.foldl extendPath front = ".".intercalate (front :: names) := by
  induction names generalizing front with
  | nil => simp
  | cons name names hypothesis =>
    have extended : extendPath front name = front ++ "." ++ name := by simp [extendPath, written]
    have further : front ++ "." ++ name ≠ "" := by simp
    rw [List.foldl_cons, extended, hypothesis further, String.intercalate_cons_append,
      String.intercalate_cons_cons]

/-- Behind the empty text the names are written that are shown. -/
theorem foldl_extendPath_empty (names : List String) :
    names.foldl extendPath "" = pathText names := by
  induction names with
  | nil => rfl
  | cons name names hypothesis =>
    have first : extendPath "" name = name := rfl
    rw [List.foldl_cons, first]
    by_cases written : name = ""
    · rw [written, hypothesis, pathText, pathText, shownNames_empty]
    · rw [foldl_extendPath_of_ne written, pathText, shownNames_of_ne written]

/-- The listed leaves are the leaves of the tree, each with the text of its path. -/
theorem leaves_eq_map (tree : Tree α) :
    tree.leaves = tree.placedLeaves.map fun leaf => (pathText leaf.names, leaf.payload) := by
  simp only [leaves, leavesBehind_eq_map, foldl_extendPath_empty]

/-- The names that are shown, joined by points, are no longer than all names. -/
theorem length_pathText_le (names : List String) :
    (pathText names).length ≤ (".".intercalate names).length := by
  induction names with
  | nil => exact Nat.le_refl _
  | cons name names hypothesis =>
    by_cases written : name = ""
    · rw [written, pathText, shownNames_empty, ← pathText]
      refine Nat.le_trans hypothesis ?_
      cases names with
      | nil => exact Nat.zero_le _
      | cons next names => simp [String.length_append]
    · have whole : pathText (name :: names) = ".".intercalate (name :: names) := by
        rw [pathText, shownNames_of_ne written]
      exact Nat.le_of_eq (congrArg String.length whole)

/-- The text of a path joins all of its names by points exactly if there is no empty name in front
of others. -/
theorem pathText_eq_intercalate_iff {names : List String} :
    pathText names = ".".intercalate names ↔ (names.head? = some "" → names = [""]) := by
  cases names with
  | nil => simp [pathText, shownNames]
  | cons name names =>
    by_cases written : name = ""
    · subst written
      cases names with
      | nil => simp [pathText, shownNames]
      | cons next names =>
        have shorter : (pathText ("" :: next :: names)).length <
            (".".intercalate ("" :: next :: names)).length := by
          have bound := length_pathText_le (next :: names)
          rw [pathText, shownNames_empty, ← pathText, String.intercalate_cons_cons]
          simp only [String.length_append]
          have point : ".".length = 1 := rfl
          omega
        refine iff_of_false (fun same => ?_) (by simp)
        rw [same] at shorter
        exact Nat.lt_irrefl _ shorter
    · rw [pathText, shownNames_of_ne written]
      simp [written]

/-- Names without points, if there are any, are read back from the text that joins them. -/
theorem splitOn_intercalate {names : List String} (plain : ∀ name ∈ names, '.' ∉ name.toList)
    (some : names ≠ []) : (".".intercalate names).toList.splitOn '.' = names.map String.toList := by
  rw [String.toList_intercalate]
  refine List.splitOn_intercalate '.' ?_ (by simpa using some)
  intro characters member
  obtain ⟨name, among, rfl⟩ := List.mem_map.1 member
  exact plain name among

/-- The text of a path is empty only if no name is shown. -/
theorem pathText_eq_empty_iff {names : List String} :
    pathText names = "" ↔ shownNames names = [] := by
  constructor
  · intro empty
    rw [pathText] at empty
    cases shown : shownNames names with
    | nil => rfl
    | cons name rest =>
      have written := ne_of_shownNames shown
      rw [shown] at empty
      cases rest with
      | nil => exact absurd (by simpa using empty) written
      | cons next rest => simp [String.intercalate_cons_cons] at empty
  · intro none
    rw [pathText, none]
    rfl

/-- If no name has a point, paths have the same text exactly if they show the same names. -/
theorem pathText_eq_iff {names others : List String} (plain : ∀ name ∈ names, '.' ∉ name.toList)
    (alsoPlain : ∀ name ∈ others, '.' ∉ name.toList) :
    pathText names = pathText others ↔ shownNames names = shownNames others := by
  refine ⟨fun same => ?_, congrArg _⟩
  by_cases empty : pathText names = ""
  · rw [pathText_eq_empty_iff.1 empty, pathText_eq_empty_iff.1 (same ▸ empty)]
  · have shown : shownNames names ≠ [] := mt pathText_eq_empty_iff.2 empty
    have alsoShown : shownNames others ≠ [] := mt pathText_eq_empty_iff.2 (same ▸ empty)
    have part (names : List String) : shownNames names ⊆ names :=
      (List.dropWhile_sublist _).subset
    have characters := congrArg (fun text : String => text.toList.splitOn '.') same
    simp only [pathText] at characters
    rw [splitOn_intercalate (fun name member => plain name (part names member)) shown,
      splitOn_intercalate (fun name member => alsoPlain name (part others member)) alsoShown]
      at characters
    exact List.map_injective_iff.2 (fun _ _ => String.toList_inj.1) characters

/-- Where sibling names are distinct, the names on the way to a leaf tell it from other leaves. -/
theorem Holds.eq_of_names {tree : Tree α} {leaf other : PlacedLeaf α} (distinct : tree.Distinct)
    (holds : tree.Holds leaf) (also : tree.Holds other) (same : leaf.names = other.names) :
    leaf = other := by
  induction holds generalizing other with
  | leaf =>
    cases also with
    | leaf => rfl
  | @child location name boundary children place child leaf found _ hypothesis =>
    cases also with
    | @child _ key _ _ next entry other search further =>
      obtain ⟨rfl, names⟩ : name = key ∧ leaf.names = other.names := List.cons.inj same
      have different : (children.map (·.1)).Nodup := distinct [] _ rfl
      obtain rfl : place = next := by
        have inside : place < (children.map (·.1)).length := by
          rw [List.length_map]
          exact (List.getElem?_eq_some_iff.1 found).1
        refine (List.getElem?_inj inside different).1 ?_
        rw [List.getElem?_map, List.getElem?_map, found, search]
        rfl
      obtain rfl : child = entry :=
        congrArg Prod.snd (Option.some.inj (found.symm.trans search))
      have first : (Tree.branch location boundary children).get? name = some child := by
        rw [get?, Tree.children, find?_of_mem different (List.mem_of_getElem? found)]
        rfl
      rw [hypothesis (distinct.get? first) further names]

/-- The leaves of a tree are listed with their paths as texts: every leaf once, in the order of the
places of children on the way. The text joins the names on the way by points exactly if there is no
empty name in front of others. Where no name has a point, different leaves have different texts
exactly if no two of them show the same names; where sibling names are distinct, no two of them have
the same names, so those that show the same differ in empty names in front. -/
theorem leaves_list_paths (tree : Tree α) :
    (∃ listing : List (PlacedLeaf α), (∀ leaf, leaf ∈ listing ↔ tree.Holds leaf) ∧
      listing.Pairwise (·.position < ·.position) ∧
      tree.leaves = listing.map fun leaf => (pathText leaf.names, leaf.payload)) ∧
    (∀ names, pathText names = ".".intercalate names ↔ (names.head? = some "" → names = [""])) ∧
    ((∀ leaf, tree.Holds leaf → ∀ name ∈ leaf.names, '.' ∉ name.toList) →
      ((tree.leaves.map (·.1)).Nodup ↔ ∀ leaf other, tree.Holds leaf → tree.Holds other →
        shownNames leaf.names = shownNames other.names → leaf = other)) ∧
    (tree.Distinct → ∀ leaf other, tree.Holds leaf → tree.Holds other →
      leaf.names = other.names → leaf = other) := by
  refine ⟨⟨tree.placedLeaves, fun leaf => mem_placedLeaves_iff, tree.ascending_placedLeaves,
    tree.leaves_eq_map⟩, fun names => pathText_eq_intercalate_iff, fun plain => ?_,
    fun distinct leaf other holds also same => holds.eq_of_names distinct also same⟩
  have texts : tree.leaves.map (·.1) =
      tree.placedLeaves.map fun leaf => pathText leaf.names := by
    rw [leaves_eq_map, List.map_map]
    rfl
  rw [texts, List.nodup_map_iff_inj_on tree.nodup_placedLeaves]
  simp only [mem_placedLeaves_iff]
  constructor
  · intro injective leaf other holds also shown
    exact injective leaf holds other also
      ((pathText_eq_iff (plain leaf holds) (plain other also)).2 shown)
  · intro apart leaf holds other also same
    exact apart leaf other holds also
      ((pathText_eq_iff (plain leaf holds) (plain other also)).1 same)

/-- A name that is empty, with a second name below it that is also a name beside it. -/
def hiddenName : Tree Nat :=
  .branch "r" false [("", .branch "r." false [("b", .leaf 1)]), ("b", .leaf 2)]

/-- The leaf below the empty name. -/
def innerLeaf : PlacedLeaf Nat := ⟨[0, 0], ["", "b"], 1⟩

/-- The leaf beside the empty name. -/
def outerLeaf : PlacedLeaf Nat := ⟨[1], ["b"], 2⟩

/-- The tree holds the two leaves. -/
theorem holds_hiddenName_iff {leaf : PlacedLeaf Nat} :
    hiddenName.Holds leaf ↔ leaf = innerLeaf ∨ leaf = outerLeaf := by
  have listed : hiddenName.placedLeaves = [innerLeaf, outerLeaf] := rfl
  rw [← mem_placedLeaves_iff, listed, List.mem_pair]

/-- Under the empty name and beside it the leaves have the same text, which is not that of the names
joined by points, although no name has a point and sibling names are distinct. -/
theorem leaves_list_paths_hiddenName :
    (∀ leaf, hiddenName.Holds leaf → ∀ name ∈ leaf.names, '.' ∉ name.toList) ∧
      hiddenName.Distinct ∧ hiddenName.leaves = [("b", 1), ("b", 2)] ∧
      pathText innerLeaf.names ≠ ".".intercalate innerLeaf.names ∧
      innerLeaf.names ≠ outerLeaf.names ∧ ¬ (hiddenName.leaves.map (·.1)).Nodup := by
  obtain ⟨-, joined, texts, names⟩ := leaves_list_paths hiddenName
  have plain : ∀ leaf, hiddenName.Holds leaf → ∀ name ∈ leaf.names, '.' ∉ name.toList := by
    intro leaf holds
    rcases holds_hiddenName_iff.1 holds with rfl | rfl <;> simp [innerLeaf, outerLeaf]
  have distinct : hiddenName.Distinct := by
    have inner : (Tree.branch "r." false [("b", .leaf 1)]).Distinct :=
      distinct_branch (List.nodup_singleton _) (by simp [distinct_leaf])
    exact distinct_branch (by simp) (by simp [inner, distinct_leaf])
  have inner : hiddenName.Holds innerLeaf := holds_hiddenName_iff.2 (.inl rfl)
  have outer : hiddenName.Holds outerLeaf := holds_hiddenName_iff.2 (.inr rfl)
  have different : innerLeaf ≠ outerLeaf := by simp [innerLeaf, outerLeaf]
  refine ⟨plain, distinct, rfl, fun same => ?_, fun same => ?_, fun nodup => ?_⟩
  · exact absurd ((joined _).1 same rfl) (by simp [innerLeaf])
  · exact different (names distinct _ _ inner outer same)
  · exact different ((texts plain).1 nodup _ _ inner outer rfl)

end StateSlice.Tree
