import StateSlice.Proofs.Combination
import StateSlice.Selector

/-!
# States along paths

The reducer of a whole tree keeps at the path of each leaf the state of that leaf: what is read
there after a step is the step of the leaf alone, from what is read there before. This needs the
names of the children of a branch to be distinct, as otherwise a path leads to the first child of a
name while the last one writes.
-/
namespace StateSlice

open Json (Value)

namespace Selector

/-- What is read through names is read from what is read before them. -/
theorem foldl_thenKey (selector : Selector) (names : List String) (state : Value) :
    names.foldl thenKey selector state = (selector state).bind (path names) := by
  induction names generalizing selector state with
  | nil => exact (Option.bind_fun_some (selector state)).symm
  | cons name names hypothesis =>
    have below (state : Value) :
        path (name :: names) state = (Value.get? name state).bind (path names) :=
      hypothesis (identity.thenKey name) state
    rw [List.foldl_cons, hypothesis, thenKey, Option.bind_assoc]
    exact congrArg (Option.bind (selector state)) (funext fun state => (below state).symm)

/-- The value at the end of a path is read from the value at its first name. -/
theorem path_cons (name : String) (names : List String) (state : Value) :
    path (name :: names) state = (Value.get? name state).bind (path names) :=
  foldl_thenKey (identity.thenKey name) names state

/-- At the end of the empty path is the whole state, if there is one. -/
theorem bind_path_nil (state : Option Value) : state.bind (path []) = state :=
  Option.bind_fun_some state

/-- A path is followed from the value at its first name, if there is one. -/
theorem bind_path_cons (name : String) (names : List String) (state : Option Value) :
    state.bind (path (name :: names)) = (state.bind (Value.get? name)).bind (path names) := by
  rw [Option.bind_assoc]
  exact congrArg state.bind (funext fun value => path_cons name names value)

end Selector

namespace Tree

variable {α β : Type}

/-- A name leads into a mapped tree as it leads into the tree. -/
theorem get?_map (f : α → β) (tree : Tree α) (name : String) :
    (tree.map f).get? name = (tree.get? name).map (map f) := by
  cases tree with
  | leaf payload => rfl
  | branch location boundary children =>
    simp only [map, get?, Tree.children, mapChildren_eq_map, List.find?_map, Option.map_map]
    rfl

/-- A path leads into a mapped tree as it leads into the tree. -/
theorem follow?_map (f : α → β) (tree : Tree α) (path : List String) :
    (tree.map f).follow? path = (tree.follow? path).map (map f) := by
  induction path generalizing tree with
  | nil => rfl
  | cons name path hypothesis =>
    rw [follow?, follow?, get?_map]
    cases tree.get? name with
    | none => rfl
    | some child => exact hypothesis child

/-- A path leads to a leaf of a mapped tree exactly if it leads to a leaf of the tree. -/
theorem leaf?_map (f : α → β) (tree : Tree α) (path : List String) :
    (tree.map f).leaf? path = (tree.leaf? path).map f := by
  rw [leaf?, leaf?, follow?_map]
  cases tree.follow? path with
  | none => rfl
  | some below => cases below <;> rfl

/-- Only the empty path leads anywhere in a leaf. -/
theorem follow?_leaf_eq_some_iff {payload : α} {path : List String} {below : Tree α} :
    (Tree.leaf payload).follow? path = some below ↔ path = [] ∧ .leaf payload = below := by
  cases path with
  | nil => simp [follow?]
  | cons name path => simp [follow?, get?, Tree.children]

/-- A path leads on from a branch through the first child of its first name. -/
theorem follow?_branch_eq_some_iff {location name : String} {boundary : Bool}
    {children : List (String × Tree α)} {path : List String} {below : Tree α} :
    (Tree.branch location boundary children).follow? (name :: path) = some below ↔
      ∃ entry, children.find? (·.1 == name) = some entry ∧
        entry.2.follow? path = some below := by
  rw [follow?, get?, Tree.children, Option.bind_map]
  exact Option.bind_eq_some_iff

/-- Where a path leads to the payload of a leaf it leads to the leaf. -/
theorem follow?_of_leaf? {tree : Tree α} {path : List String} {payload : α}
    (found : tree.leaf? path = some payload) : tree.follow? path = some (.leaf payload) := by
  obtain ⟨below, leads, own⟩ := Option.bind_eq_some_iff.1 found
  cases below with
  | leaf other =>
    have same : other = payload := Option.some.inj own
    rw [leads, same]
  | branch location boundary children => simp [payload?] at own

/-- Only the empty path leads to a leaf of a leaf. -/
theorem leaf?_leaf_eq_some_iff {payload other : α} {path : List String} :
    (Tree.leaf payload).leaf? path = some other ↔ path = [] ∧ payload = other := by
  cases path with
  | nil => simp [leaf?, follow?, payload?]
  | cons name path => simp [leaf?, follow?, get?, Tree.children]

/-- A path leads to a leaf of a branch through a child. -/
theorem leaf?_branch_eq_some_iff {location : String} {boundary : Bool}
    {children : List (String × Tree α)} {payload : α} {path : List String} :
    (Tree.branch location boundary children).leaf? path = some payload ↔
      ∃ name rest entry, path = name :: rest ∧ children.find? (·.1 == name) = some entry ∧
        entry.2.leaf? rest = some payload := by
  constructor
  · intro found
    cases path with
    | nil => simp [leaf?, follow?, payload?] at found
    | cons name path =>
      rw [leaf?, follow?, get?, Tree.children, Option.bind_map, Option.bind_assoc] at found
      obtain ⟨entry, search, further⟩ := Option.bind_eq_some_iff.1 found
      exact ⟨name, path, entry, rfl, search, further⟩
  · rintro ⟨name, rest, entry, rfl, search, further⟩
    rw [leaf?, follow?, get?, Tree.children, search]
    exact further

/-- The children of every branch that a path leads to have distinct names. -/
def Distinct (tree : Tree α) : Prop :=
  ∀ path below, tree.follow? path = some below → below.keys.Nodup

/-- What a name leads to in a tree with distinct names has distinct names. -/
theorem Distinct.get? {tree child : Tree α} {name : String} (distinct : tree.Distinct)
    (found : tree.get? name = some child) : child.Distinct := by
  intro path below further
  have whole : tree.follow? (name :: path) = some below := by
    rw [follow?, found]
    exact further
  exact distinct (name :: path) below whole

/-- A leaf has no names that could be the same. -/
theorem distinct_leaf (payload : α) : (Tree.leaf payload).Distinct := by
  intro path below found
  obtain ⟨-, rfl⟩ := follow?_leaf_eq_some_iff.1 found
  exact List.nodup_nil

/-- The sibling names in a branch are distinct if those of its children are, and those in them. -/
theorem distinct_branch {location : String} {boundary : Bool} {children : List (String × Tree α)}
    (apart : (children.map (·.1)).Nodup) (inside : ∀ child ∈ children, child.2.Distinct) :
    (Tree.branch location boundary children).Distinct := by
  intro path below found
  cases path with
  | nil =>
    obtain rfl := Option.some.inj found
    exact apart
  | cons name path =>
    obtain ⟨entry, search, further⟩ := follow?_branch_eq_some_iff.1 found
    exact inside entry (List.mem_of_find?_eq_some search) path below further

/-- Among entries with distinct names, each is the first of its name. -/
theorem find?_of_mem {entries : List (String × β)} (distinct : (entries.map (·.1)).Nodup)
    {entry : String × β} (member : entry ∈ entries) :
    entries.find? (·.1 == entry.1) = some entry := by
  have some := List.find?_isSome (p := fun other : String × β => other.1 == entry.1) |>.2
    ⟨entry, member, beq_self_eq_true _⟩
  obtain ⟨other, search⟩ := Option.isSome_iff_exists.1 some
  have named : other.1 = entry.1 := by simpa using List.find?_some search
  have same := List.inj_on_of_nodup_map distinct (List.mem_of_find?_eq_some search) member named
  rw [search, same]

/-- Among entries with distinct names, the last of a name is the first of it. -/
theorem find?_reverse {entries : List (String × β)} (distinct : (entries.map (·.1)).Nodup)
    (name : String) :
    entries.reverse.find? (·.1 == name) = entries.find? (·.1 == name) := by
  induction entries with
  | nil => rfl
  | cons entry entries hypothesis =>
    rw [List.map_cons, List.nodup_cons] at distinct
    rw [List.reverse_cons, List.find?_append, hypothesis distinct.2]
    by_cases named : entry.1 = name
    · have absent : entries.find? (·.1 == name) = none := by
        rw [List.find?_eq_none]
        rintro other member same
        have again : other.1 = entry.1 := by rw [named, eq_of_beq same]
        exact distinct.1 (again ▸ List.mem_map_of_mem member)
      simp [absent, named]
    · simp [named]

/-- With distinct names, the reducer that writes a name in the state of a branch is the reducer of
what the name leads to, and nothing else is written. -/
theorem writer?_combined {location : String} {boundary : Bool} {children : List (String × Tree α)}
    (distinct : (Tree.branch location boundary children).Distinct) (f : α → Reducer)
    (name : String) :
    Reducer.writer? name (children.map fun child => (child.1, (child.2.map f).combined)) =
      ((Tree.branch location boundary children).get? name).map fun child =>
        (child.map f).combined := by
  rw [Reducer.writer?, ← List.map_reverse, List.find?_map, get?, Tree.children]
  have reversed : children.reverse.find? ((fun entry => entry.1 == name) ∘
      fun child : String × Tree α => (child.1, (child.2.map f).combined)) =
      children.find? (·.1 == name) := find?_reverse (distinct [] _ rfl) name
  rw [reversed, Option.map_map, Option.map_map]
  rfl

/-- What is read at a path after a step of the whole is the step of what the path leads to. -/
theorem path_reduce_of_follow? {tree below : Tree α} (distinct : tree.Distinct) {f : α → Reducer}
    {path : List String} (found : tree.follow? path = some below) (state : Option Value)
    (action : Action) :
    Selector.path path ((tree.map f).combined.reduce state action) =
      some ((below.map f).combined.reduce (state.bind (Selector.path path)) action) := by
  induction path generalizing tree state with
  | nil =>
    obtain rfl := Option.some.inj found
    rw [Selector.bind_path_nil]
    rfl
  | cons name path hypothesis =>
    cases tree with
    | leaf payload => simp [follow?, get?, Tree.children] at found
    | branch location boundary children =>
      rw [follow?] at found
      obtain ⟨child, first, further⟩ := Option.bind_eq_some_iff.1 found
      have writes := writer?_combined distinct f name
      have read := hypothesis (distinct.get? first) further (state.bind (Value.get? name))
      rw [combined_map_branch, Selector.path_cons, Reducer.get?_reduce_combine, writes, first,
        Selector.bind_path_cons]
      exact read

/-- What is read at the path of a leaf after a step is the step of the leaf. -/
theorem path_reduce {tree : Tree α} (distinct : tree.Distinct) {f : α → Reducer}
    {path : List String} {payload : α} (found : tree.leaf? path = some payload)
    (state : Option Value) (action : Action) :
    Selector.path path ((tree.map f).combined.reduce state action) =
      some ((f payload).reduce (state.bind (Selector.path path)) action) := by
  have leads : tree.follow? path = some (.leaf payload) := follow?_of_leaf? found
  exact path_reduce_of_follow? distinct leads state action

/-- A step of the whole comes to the same state as another if every leaf does. -/
theorem reduce_congr {tree : Tree α} (distinct : tree.Distinct) {f : α → Reducer}
    {state other : Option Value} {action instead : Action}
    (agree : ∀ path payload, tree.leaf? path = some payload →
      (f payload).reduce (state.bind (Selector.path path)) action =
        (f payload).reduce (other.bind (Selector.path path)) instead) :
    (tree.map f).combined.reduce state action = (tree.map f).combined.reduce other instead := by
  induction tree using Tree.induct generalizing state other with
  | leaf payload =>
    have same := agree [] payload rfl
    rwa [Selector.bind_path_nil, Selector.bind_path_nil] at same
  | branch location boundary children hypothesis =>
    rw [combined_map_branch]
    refine Reducer.reduce_combine_congr fun name reducer writes => ?_
    rw [writer?_combined distinct f name] at writes
    obtain ⟨child, first, rfl⟩ := Option.map_eq_some_iff.1 writes
    obtain ⟨entry, search, rfl⟩ := Option.map_eq_some_iff.1 first
    refine hypothesis entry (List.mem_of_find?_eq_some search) (distinct.get? first) ?_
    intro path payload found
    have whole : (Tree.branch location boundary children).leaf? (name :: path) = some payload := by
      rw [leaf?, follow?, first]
      exact found
    have same := agree (name :: path) payload whole
    rwa [Selector.bind_path_cons, Selector.bind_path_cons] at same

end Tree

end StateSlice
