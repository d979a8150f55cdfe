import StateSlice.Proofs.Addressing
import StateSlice.Proofs.AuditedCompilation
import StateSlice.Proofs.Conformance

/-!
# Defaults of leaves

A leaf starts from its default and comes back to it at every reset. The audit has checked a default
that is declared: sanitizing keeps it as it is. A default that is not declared is the zero of the
tag of the node, which every kind of scalar accepts and which is the empty container of a shape or
an array; only a custom node may reject it. The audit reaches every leaf that is compiled, one by
one through the boundaries on the way, unless the limit on open deferrals stops it before.
-/
namespace StateSlice

open Json (Value)

namespace Structure

variable {scope : Scope} {root content : Structure}

/-- A default that the inner node declares is kept as it is. -/
def KeepsDeclared (scope : Scope) (content : Structure) : Prop :=
  ∀ value, (content.inner scope).explicit? = some value → content.conform scope value = some value

/-- Whether the declared default is kept depends on the inner node alone. -/
theorem KeepsDeclared.congr {other : Structure} (keeps : content.KeepsDeclared scope)
    (same : other.inner scope = content.inner scope) : other.KeepsDeclared scope := by
  intro value declared
  rw [same] at declared
  rw [conform_congr same]
  exact keeps value declared

/-- A custom node is the only one whose default may be rejected although a declared default is kept:
if it declares none, its default is null. -/
theorem conform_defaultValue_iff (keeps : content.KeepsDeclared scope) :
    content.conform scope (content.defaultValue scope) = some (content.defaultValue scope) ↔
      ∀ check message, content.inner scope = .custom check message none →
        check .null = true := by
  cases declared : (content.inner scope).explicit? with
  | some value =>
    have own : content.defaultValue scope = value := by
      rw [defaultValue, Node.ownDefault, declared, Option.getD_some]
    rw [own]
    refine iff_of_true (keeps value declared) fun check message node => ?_
    simp [node, Node.explicit?] at declared
  | none =>
    have own : content.defaultValue scope = (content.inner scope).tag.zero := by
      rw [defaultValue, Node.ownDefault, declared, Option.getD_none]
    rw [own]
    cases node : content.inner scope with
    | scalar kind explicit =>
      have owned : (content.inner scope).ownValidator? = some (.ofKind kind) := by rw [node]; rfl
      have accepted : kind.accepts kind.tag.zero = true := by cases kind <;> rfl
      refine iff_of_true ?_ (by simp)
      rw [conform_of_validator owned]
      exact if_pos accepted
    | custom check message explicit =>
      have owned : (content.inner scope).ownValidator? = some (.ofCheck check) := by
        rw [node]
        rfl
      have undeclared : explicit = none := by rwa [node] at declared
      have accepted : content.conform scope .null = some .null ↔ check .null = true := by
        rw [conform_of_validator owned, Option.ite_none_right_eq_some, Validator.accepts]
        simp
      rw [Node.tag, Tag.zero, accepted, undeclared]
      constructor
      · rintro kept other text same
        obtain ⟨rfl, -⟩ : check = other ∧ message = text := by simpa using same
        exact kept
      · intro all
        exact all check message rfl
    | shape children wildcard explicit =>
      refine iff_of_true (conform_of_conforms (conforms_empty ?_)) (by simp)
      rw [node]
      rfl
    | arrayOf element explicit =>
      refine iff_of_true (conform_of_conforms (conforms_empty ?_)) (by simp)
      rw [node]
      rfl
    | boundary inner =>
      have plain := content.isBoundary_inner scope
      simp [node, Node.isBoundary] at plain

/-- A path of a walk leads along a path of names: through named children and into boundaries. -/
inductive Along : List Place → List String → Prop
  /-- The walk has not started. -/
  | start : Along [] []
  /-- The walk goes into a boundary at the names. -/
  | inside {path : List Place} {names : List String} :
      Along path names → Along (path ++ [.inside]) names
  /-- The walk goes on to a named child. -/
  | child {path : List Place} {names : List String} {name : String} :
      Along path names → Along (path ++ [.child name]) (names ++ [name])

/-- The limit on open deferrals stops the audit at names or before them, at a deferral on the
way. -/
def CutOnWay (scope : Scope) (root : Structure) (names : List String) : Prop :=
  ∃ before, before <+: names ∧ ∃ opened path place, Along path before ∧
    Visits scope root opened path place ∧ place.isDeferred = true ∧ maxHops ≤ opened.length

/-- No walk is cut in which every visit is near the root. -/
theorem not_cutOnWay_of_survey (near : ∀ visit ∈ root.survey scope, visit.path.length < maxHops)
    (names : List String) : ¬ root.CutOnWay scope names := by
  rintro ⟨before, -, opened, path, place, -, visits, -, full⟩
  have visited : ⟨path, place, place.find scope opened⟩ ∈ root.survey scope :=
    mem_survey_iff.2 ⟨opened, visits, rfl⟩
  have short : path.length < maxHops := near _ visited
  have few := visits.length_opened_le
  omega

/-- What cuts the way to names cuts the way on from there. -/
theorem CutOnWay.append {names : List String} (cut : root.CutOnWay scope names)
    (more : List String) : root.CutOnWay scope (names ++ more) := by
  obtain ⟨before, ahead, stopped⟩ := cut
  exact ⟨before, ahead.trans (List.prefix_append names more), stopped⟩

/-- The audit, with some deferrals open, has come along names to a place inside the boundaries
around a position that is compiled. -/
def Tracks (scope : Scope) (root : Structure) (opened : Opened) (names : List String)
    (position place : Structure) : Prop :=
  Follows scope root opened position place ∧
    ∃ path, Along path names ∧ Visits scope root opened path place

/-- In a clean audit the default that a node declares is kept where the walk finds the node. -/
theorem keepsDeclared_of_find {opened : Opened} {path : List Place} {place : Structure}
    {node : Node} (clean : root.audit scope = []) (visits : Visits scope root opened path place)
    (found : place.find scope opened = .found node) (plain : node.isBoundary = false) :
    place.KeepsDeclared scope := by
  have own : place.inner scope = node := by
    rw [inner, resolve_of_find found, Node.lookThrough_eq_self scope plain]
  intro value declared
  rw [own] at declared
  have quiet := visits.issueKinds_eq_nil clean
  by_contra dropped
  simp [Visit.issueKinds, found, declared, dropped] at quiet

/-- In a clean audit the default that is declared at a place of the walk without a boundary is kept,
unless the limit on open deferrals stops the walk there. -/
theorem keepsDeclared_of_visits {opened : Opened} {path : List Place} {place : Structure}
    (clean : root.audit scope = []) (visits : Visits scope root opened path place)
    (unbounded : place.hasBoundary scope = false) :
    (place.isDeferred = true ∧ maxHops ≤ opened.length) ∨ place.KeepsDeclared scope := by
  have plain {fewer : Opened} {node : Node} (found : place.find scope fewer = .found node) :
      node.isBoundary = false := by
    cases node with
    | boundary inner =>
      have bounded := hasBoundary_of_reachesBoundary (reachesBoundary_of_boundary found)
      rw [unbounded] at bounded
      exact absurd bounded Bool.false_ne_true
    | _ => rfl
  cases found : place.find scope opened with
  | found node => exact .inr (keepsDeclared_of_find clean visits found (plain found))
  | unresolved => exact absurd found (visits.find_ne_unresolved clean)
  | closed =>
    rcases closed_cases found with ⟨label, rfl, member⟩ | full
    · -- The default of a deferral that is open has been checked where it was entered.
      obtain ⟨fewer, before, node, -, entered, known⟩ := visits.exists_before_of_mem member
      exact .inr (keepsDeclared_of_find clean entered known (plain known))
    · exact .inl full

/-- In a clean audit, from a place inside the boundaries around a position the audit comes to the
inner node of the position, unless it is stopped by the limit on open deferrals or looking through
the boundaries ends at the placeholder. -/
theorem Tracks.inner_cases {opened : Opened} {names : List String} {position place : Structure}
    (clean : root.audit scope = []) (tracks : Tracks scope root opened names position place) :
    root.CutOnWay scope names ∨ position.inner scope = .placeholder ∨
      ∃ opened place, Tracks scope root opened names position place ∧
        place.find scope opened = .found (position.inner scope) := by
  have ⟨follows, path, along, visits⟩ := tracks
  cases found : place.find scope opened with
  | unresolved => exact absurd found (visits.find_ne_unresolved clean)
  | closed =>
    have full := follows.full_of_closed clean found
    exact .inl ⟨names, List.prefix_rfl, opened, path, place, along, visits, full⟩
  | found node =>
    by_cases bounded : node.isBoundary
    · cases node with
      | boundary inner =>
        have part : (Place.inside, inner) ∈ (Node.boundary inner).parts :=
          List.mem_singleton_self _
        have deeper : Tracks scope root (place.opening opened) names position inner :=
          ⟨follows.inside found, path ++ [.inside], along.inside, visits.part found part⟩
        exact deeper.inner_cases clean
      | _ => simp [Node.isBoundary] at bounded
    · obtain ⟨looks, known⟩ := follows.inner_eq_lookThrough
      rw [resolve_of_find found] at known
      cases looks with
      | zero => exact .inr (.inl (by rw [known, Node.lookThrough]))
      | succ looks =>
        have same : position.inner scope = node := by
          rw [known, Node.lookThrough_eq_self scope (by simpa using bounded)]
        exact .inr (.inr ⟨opened, place, tracks, by rw [found, same]⟩)
termination_by (maxHops - opened.length, sizeOf place)
decreasing_by exact walk_decreases found (by simp)

/-- A tree at which the audit has arrived keeps the defaults that its leaves declare, except for
those to which the way of the audit is cut. -/
def KeepsLeaves (scope : Scope) (root content : Structure) (tree : Tree CompiledLeaf) : Prop :=
  ∀ opened before position, content.inner scope = position.inner scope →
    Tracks scope root opened before position position →
    ∀ names compiled, tree.leaf? names = some compiled →
      root.CutOnWay scope (before ++ names) ∨ compiled.leaf.content.KeepsDeclared scope

/-- A leaf has the structure that it is compiled from. -/
theorem content_of_compileLeaf {mount : Mount} {compiled : CompiledLeaf}
    (made : content.compileLeaf scope mount = .ok compiled) : compiled.leaf.content = content := by
  obtain ⟨container, -, rfl⟩ := eq_of_compileLeaf made
  rfl

/-- A leaf at which the audit has arrived keeps the default that it declares. -/
theorem keepsLeaves_leaf {mount : Mount} {leaf : CompiledLeaf} (clean : root.audit scope = [])
    (made : content.compileLeaf scope mount = .ok leaf) :
    KeepsLeaves scope root content (.leaf leaf) := by
  intro opened before position same tracks names compiled found
  obtain ⟨rfl, rfl⟩ := Tree.leaf?_leaf_eq_some_iff.1 found
  rw [List.append_nil, content_of_compileLeaf made]
  rcases tracks.inner_cases clean with cut | placeholder | ⟨fewer, place, arrived, known⟩
  · exact .inl cut
  · refine .inr fun value declared => ?_
    rw [same, placeholder] at declared
    simp [Node.placeholder, Node.explicit?] at declared
  · obtain ⟨-, path, -, visits⟩ := arrived
    have plain := position.isBoundary_inner scope
    have inner : place.inner scope = position.inner scope := by
      rw [Structure.inner, resolve_of_find known, Node.lookThrough_eq_self scope plain]
    have keeps := keepsDeclared_of_find clean visits known plain
    exact .inr (keeps.congr (same.trans inner.symm))

/-- A branch at whose structure the audit has arrived keeps the defaults that its leaves declare if
the trees of its children do so wherever the audit has arrived at them. -/
theorem keepsLeaves_branch {mount : Mount} {boundary : Bool} {location : String}
    {compiled : List (String × Tree CompiledLeaf)} (clean : root.audit scope = [])
    (related : List.Forall₂ (CompiledChild scope
      (fun _ content _ tree => KeepsLeaves scope root content tree) mount)
      (content.inner scope).children compiled) :
    KeepsLeaves scope root content (.branch location boundary compiled) := by
  intro opened before position same tracks names leaf found
  obtain ⟨name, rest, entry, rfl, search, further⟩ := Tree.leaf?_branch_eq_some_iff.1 found
  obtain ⟨child, first, -, compiledFrom⟩ :=
    child?_of_compiled (fun _ _ related => related.1) related search
  rw [same] at first
  have member : (name, child) ∈ (position.inner scope).children := mem_of_child? first
  have step : before ++ name :: rest = before ++ [name] ++ rest := by simp
  rcases tracks.inner_cases clean with cut | placeholder | ⟨fewer, place, arrived, known⟩
  · exact .inl (cut.append (name :: rest))
  · rw [placeholder] at member
    simp [Node.placeholder, Node.children] at member
  · obtain ⟨follows, path, along, visits⟩ := arrived
    have part : (Place.child name, child) ∈ (position.inner scope).parts :=
      Node.mem_parts_of_mem_children member
    have below := visits.part known part
    by_cases bounded : child.hasBoundary scope
    · rw [if_pos bounded] at compiledFrom
      have onward : Tracks scope root (place.opening fewer) (before ++ [name]) child child :=
        ⟨follows.child known member bounded, path ++ [.child name], along.child, below⟩
      rw [step]
      exact compiledFrom _ _ _ rfl onward rest leaf further
    · rw [if_neg bounded] at compiledFrom
      obtain ⟨own, made, tree⟩ := compiledFrom
      rw [tree] at further
      obtain ⟨rfl, rfl⟩ := Tree.leaf?_leaf_eq_some_iff.1 further
      rw [content_of_compileLeaf made]
      rcases keepsDeclared_of_visits clean below (by simpa using bounded) with full | keeps
      · exact .inl ⟨before ++ [name], List.prefix_rfl, _, _, _, along.child, below, full⟩
      · exact .inr keeps

/-- A compiled tree at whose structure the audit has arrived keeps the defaults that its leaves
declare. -/
theorem keepsLeaves_of_compileAs {boundary : Bool} {mount : Mount} {tree : Tree CompiledLeaf}
    (clean : root.audit scope = [])
    (ends : content.compileAs scope boundary mount = some (.ok tree)) :
    KeepsLeaves scope root content tree := by
  refine tree_induct (motive := fun _ content _ tree => KeepsLeaves scope root content tree)
    ?_ ?_ ends
  · intro boundary content mount leaf plain made
    exact keepsLeaves_leaf clean made
  · intro boundary content mount children wildcard explicit compiled node related
    have declared : (content.inner scope).children = children := by rw [node]; rfl
    exact keepsLeaves_branch clean (declared ▸ related)

end Structure

namespace Leaf

/-- The reset of a leaf sets it to its initial value. -/
theorem reduce_reset {leaf : Leaf} {action : Action}
    (asks : action.type = Operation.reset.actionType leaf.location) (state : Option Value) :
    leaf.reducer.reduce state action = leaf.initial := by
  have has : Operation.reset ∈ leaf.actions.operations := by
    cases kind : leaf.actions.kind <;> simp [LeafActions.operations, kind]
  exact reduce_of_mem_operations has asks state

end Leaf

namespace Chunk

variable {scope : Scope} {name : String} {content : Structure} {options : ChunkOptions}
  {chunk : Chunk}

/-- A leaf of a chunk keeps the default that it declares, unless the limit on open deferrals stopped
the audit on the way to it. -/
theorem keepsDeclared_of_build {path : List String} {compiled : CompiledLeaf}
    (built : build scope name content options = some (.ok chunk))
    (found : chunk.tree.leaf? path = some compiled) :
    content.CutOnWay scope path ∨ compiled.leaf.content.KeepsDeclared scope := by
  obtain ⟨clean, ends, -⟩ := build_cases built
  have start : Structure.Tracks scope content [] [] content content :=
    ⟨.root, [], .start, .root⟩
  have same := content.inner_ready_inner scope
  rcases compile_cases ends with ⟨compiledTree, -⟩ | ⟨-, leaf, made, tree⟩
  · exact Structure.keepsLeaves_of_compileAs clean compiledTree _ _ _ same start path _ found
  · rw [tree] at found
    exact Structure.keepsLeaves_leaf clean made _ _ _ same start path _ found

end Chunk

end StateSlice
