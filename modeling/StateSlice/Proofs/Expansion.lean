import StateSlice.Proofs.Descents
import StateSlice.Proofs.ResetAll
import StateSlice.Proofs.Similarity

/-!
# Deferrals that could be left out

A structure that does not refer to itself can be written without deferrals. Deferring some of its
positions changes nothing, as long as no chain of deferrals is longer than can be followed and no
more positions on one way are deferred than may be open: nothing that follows deferrals meets a
limit then, nor a deferral that it has open, for what is deferred twice on one way would be part of
itself. So the structure with deferrals and the one without have the same issues, and the same is
compiled from them.
-/
namespace StateSlice

open Json (Value)

/-- If items are related one by one to two lists, and what one item is related to is the same, so
are the lists. -/
theorem eq_of_forall₂ {α β : Type} {R S : α → β → Prop} {items : List α} {lefts rights : List β}
    (first : List.Forall₂ R items lefts) (second : List.Forall₂ S items rights)
    (same : ∀ item left right, R item left → S item right → left = right) : lefts = rights := by
  induction first generalizing rights with
  | nil =>
    cases second
    rfl
  | cons related _ hypothesis =>
    cases second with
    | cons also others => rw [same _ _ _ related also, hypothesis others]

/-- If there are outputs for the items of two lists pair by pair, there are lists of outputs. -/
theorem exists_outputs_of_forall₂ {α β γ δ : Type} {P : α → γ → Prop} {Q : β → δ → Prop}
    {R : γ → δ → Prop} {lefts : List α} {rights : List β}
    (each : List.Forall₂ (fun left right => ∃ output instead,
      P left output ∧ Q right instead ∧ R output instead) lefts rights) :
    ∃ outputs insteads, List.Forall₂ P lefts outputs ∧ List.Forall₂ Q rights insteads ∧
      List.Forall₂ R outputs insteads := by
  induction each with
  | nil => exact ⟨[], [], .nil, .nil, .nil⟩
  | cons first _ hypothesis =>
    obtain ⟨output, instead, left, right, same⟩ := first
    obtain ⟨outputs, insteads, lefts, rights, others⟩ := hypothesis
    exact ⟨_, _, .cons left lefts, .cons right rights, .cons same others⟩

namespace Node.Matches

variable {R S : Structure → Structure → Prop} {node other third : Node}

/-- The parts of a matching node are smaller than the node. -/
theorem smaller (matched : node.Matches R other) :
    node.Matches (fun part plain => R part plain ∧ sizeOf plain < sizeOf other) other :=
  matched.mono_of_mem fun _ _ _ member related => ⟨related, sizeOf_lt_of_mem_parts member⟩

/-- If what a part is related to is the same, so is what a node matches. -/
theorem unique (matched : node.Matches R other) (also : node.Matches S third)
    (same : ∀ part plain another, R part plain → S part another → plain = another) :
    other = third := by
  cases matched with
  | shape explicit each wild =>
    cases also with
    | shape _ others otherWild =>
      have children := eq_of_forall₂ each others fun child plain another left right =>
        Prod.ext (left.1.symm.trans right.1) (same _ _ _ left.2 right.2)
      rw [children]
      cases wild with
      | none =>
        cases otherWild
        rfl
      | some related =>
        cases otherWild with
        | some again => rw [same _ _ _ related again]
  | arrayOf explicit related =>
    cases also with
    | arrayOf _ again => rw [same _ _ _ related again]
  | boundary related =>
    cases also with
    | boundary again => rw [same _ _ _ related again]
  | _ =>
    cases also
    rfl

end Node.Matches

namespace Structure

variable {scope : Scope} {content part other : Structure} {opened : Opened} {limit : Nat}

/-- A node that is built already, deferred a number of times. -/
def delayed : (hops : Nat) → Node → Structure
  | 0, node => .ready node
  | hops + 1, node => lazily (delayed hops node)

/-- A node is reached after as many hops as it is deferred. -/
theorem landing_delayed (scope : Scope) (hops : Nat) (node : Node) :
    (delayed hops node).landing scope = .reaches hops node := by
  induction hops with
  | zero => rfl
  | succ hops hypothesis =>
    rw [delayed, lazily, landing, Deferral.landing, hypothesis]
    rfl

/-- Following its deferrals at every depth, a structure is written without any. At each position a
node is reached within the limit on hops, and on no way more positions are deferred than another
limit. -/
inductive Expands (scope : Scope) : (limit : Nat) → Structure → Structure → Prop
  /-- The structure resolves to a node, and the parts of the node are written without deferrals. -/
  | node {rest : Nat} {content : Structure} {own plain : Node} {R : Structure → Structure → Prop} :
      content.resolve? scope = some own → own.Matches R plain →
      (∀ part other, R part other → Expands scope rest part other) →
      Expands scope (rest + if content.isDeferred then 1 else 0) content (.ready plain)

namespace Expands

/-- A limit may be larger. -/
theorem of_le {more : Nat} (expands : Expands scope limit content other) (less : limit ≤ more) :
    Expands scope more content other := by
  induction expands generalizing more with
  | @node rest content own plain R resolved matched parts hypothesis =>
    obtain ⟨room, rfl⟩ := Nat.exists_eq_add_of_le less
    rw [Nat.add_right_comm]
    refine .node resolved matched fun part other related => ?_
    exact hypothesis part other related (Nat.le_add_right rest room)

/-- A structure resolves to a node that matches the node without deferrals, and whose parts are
written without them. -/
theorem exists_matches (expands : Expands scope limit content other) :
    ∃ rest own plain, other = .ready plain ∧ content.resolve? scope = some own ∧
      limit = rest + (if content.isDeferred then 1 else 0) ∧
      own.Matches (Expands scope rest) plain := by
  cases expands with
  | node resolved matched parts =>
    exact ⟨_, _, _, rfl, resolved, rfl, matched.mono parts⟩

/-- A structure is written without deferrals in one way. -/
theorem unique {another : Structure} {less : Nat} (expands : Expands scope limit content other)
    (also : Expands scope less content another) : other = another := by
  induction expands generalizing less another with
  | @node rest content own plain R resolved matched parts hypothesis =>
    obtain ⟨rest, node, instead, rfl, known, -, again⟩ := also.exists_matches
    obtain rfl := Option.some.inj (resolved.symm.trans known)
    exact congrArg _ (matched.unique again fun part plain another related further =>
      hypothesis part plain related further)

/-- A node that is deferred, as often as can be followed, is written without deferrals if its parts
are. -/
theorem of_delayed {rest hops : Nat} {own plain : Node} (few : hops ≤ maxHops)
    (matched : own.Matches (Expands scope rest) plain) :
    Expands scope (rest + if hops = 0 then 0 else 1) (delayed hops own) (.ready plain) := by
  have resolved : (delayed hops own).resolve? scope = some own := by
    rw [resolve?, landing_delayed, Landing.node?, if_pos few]
  have expands := Expands.node resolved matched fun _ _ further => further
  cases hops with
  | zero => exact expands
  | succ hops => exact expands

/-- What a structure and the one without deferrals resolve to matches. -/
theorem resolve_matches (expands : Expands scope limit content other) :
    (content.resolve scope).Matches (Expands scope limit) (other.resolve scope) := by
  obtain ⟨rest, own, plain, rfl, resolved, rfl, matched⟩ := expands.exists_matches
  rw [resolve_ready, resolve, resolved, Option.getD_some]
  exact matched.mono fun part other further => further.of_le (Nat.le_add_right rest _)

/-- The inner nodes match, and the parts of the one without deferrals are smaller than the structure
that it is the inner node of. -/
theorem inner_matches (expands : Expands scope limit content other) :
    (content.inner scope).Matches (fun part plain => Expands scope limit part plain ∧
      sizeOf plain < sizeOf other) (other.inner scope) := by
  have looks (count : Nat) {content other : Structure}
      (expands : Expands scope limit content other) :
      ((content.resolve scope).lookThrough scope count).Matches (fun part plain =>
        Expands scope limit part plain ∧ sizeOf plain < sizeOf other)
        ((other.resolve scope).lookThrough scope count) := by
    induction count generalizing content other with
    | zero => exact .custom _ _ _
    | succ count hypothesis =>
      have matched := expands.resolve_matches
      obtain ⟨-, -, plain, rfl, -⟩ := expands.exists_matches
      rw [resolve_ready] at matched ⊢
      by_cases bounded : plain.isBoundary
      · generalize content.resolve scope = node at matched
        cases matched with
        | boundary related =>
          refine (hypothesis related).mono fun part plain further => ⟨further.1, ?_⟩
          have less := further.2
          simp
          omega
        | _ => simp [Node.isBoundary] at bounded
      · have plainNode : plain.isBoundary = false := by simpa using bounded
        have plainOwn := matched.isBoundary_eq.trans plainNode
        rw [Node.lookThrough_eq_self scope plainNode, Node.lookThrough_eq_self scope plainOwn]
        refine matched.smaller.mono fun part plain further => ⟨further.1, ?_⟩
        have less := further.2
        simp
        omega
  exact looks (maxHops + 1) expands

/-- Structures are similar to those that are written without deferrals. -/
theorem similarity (scope : Scope) (limit : Nat) :
    Similarity scope scope (Expands scope limit) := fun _ _ expands =>
  expands.inner_matches.mono fun _ _ further => further.1

end Expands

/-- What is open is larger than a structure without deferrals: whatever it is written as has the
structure inside. -/
def Surrounds (scope : Scope) (opened : Opened) (plain : Structure) : Prop :=
  ∀ label, some label ∈ opened → ∃ limit larger,
    Expands scope limit (.deferred (.named label)) larger ∧ sizeOf plain < sizeOf larger

/-- A walk comes, with some deferrals open, to a structure that has enough room and is not part of
what is open. -/
def Enters (scope : Scope) (opened : Opened) (content other : Structure) : Prop :=
  ∃ limit, Expands scope limit content other ∧ limit + opened.length ≤ maxHops ∧
    Surrounds scope opened other

/-- Where a structure resolves to a node, a walk finds the node or does not enter the structure. -/
theorem find_or_closed {own : Node} (resolved : content.resolve? scope = some own)
    (opened : Opened) :
    content.find scope opened = .found own ∨ content.find scope opened = .closed := by
  cases content with
  | ready node =>
    obtain rfl : node = own := by simpa using resolved
    exact .inl rfl
  | deferred deferral =>
    by_cases closed : deferral.isClosedTo opened
    · exact .inr (by rw [find, if_pos closed])
    · exact .inl (by rw [find, if_neg closed, resolved])

/-- Where a walk comes, it finds the node of the structure: there is room for it, and it is not
open, as it would be part of itself. -/
theorem Enters.find_eq {own : Node} (enters : Enters scope opened content other)
    (resolved : content.resolve? scope = some own) : content.find scope opened = .found own := by
  obtain ⟨limit, expands, room, surrounds⟩ := enters
  refine (find_or_closed resolved opened).resolve_right fun closed => ?_
  rcases closed_cases closed with ⟨label, rfl, member⟩ | ⟨deferred, full⟩
  · obtain ⟨less, larger, also, smaller⟩ := surrounds label member
    rw [expands.unique also] at smaller
    exact absurd smaller (Nat.lt_irrefl _)
  · obtain ⟨rest, -, -, -, -, rfl, -⟩ := expands.exists_matches
    rw [if_pos deferred] at room
    omega

/-- What is open when a structure is entered surrounds what is smaller. -/
theorem Surrounds.opening {plain : Structure} (surrounds : Surrounds scope opened other)
    (expands : Expands scope limit content other) (smaller : sizeOf plain < sizeOf other) :
    Surrounds scope (content.opening opened) plain := by
  intro label member
  rcases mem_opening_iff.1 member with rfl | earlier
  · exact ⟨limit, other, expands, smaller⟩
  · obtain ⟨less, larger, also, further⟩ := surrounds label earlier
    exact ⟨less, larger, also, Nat.lt_trans smaller further⟩

/-- Where a walk comes, it finds a node that matches the one without deferrals, and comes to its
parts. -/
theorem Enters.exists_found (enters : Enters scope opened content other) :
    ∃ own plain, other = .ready plain ∧ content.find scope opened = .found own ∧
      own.Matches (fun part plain => Enters scope (content.opening opened) part plain ∧
        sizeOf plain < sizeOf other) plain := by
  have ⟨limit, expands, room, surrounds⟩ := enters
  obtain ⟨rest, own, plain, rfl, resolved, rfl, matched⟩ := expands.exists_matches
  refine ⟨own, plain, rfl, enters.find_eq resolved, matched.smaller.mono ?_⟩
  rintro part instead ⟨inside, less⟩
  have smaller : sizeOf instead < sizeOf (Structure.ready plain) := by
    simp
    omega
  have fits : rest + (content.opening opened).length ≤ maxHops := by
    rw [length_opening]
    omega
  exact ⟨⟨rest, inside, fits, surrounds.opening expands smaller⟩, smaller⟩

/-- A walk starts at a structure that is written without deferrals within the limit. -/
theorem Expands.enters (expands : Expands scope maxHops content other) :
    Enters scope [] content other :=
  ⟨maxHops, expands, Nat.le_refl _, fun _ member => absurd member List.not_mem_nil⟩

/-- A search reaches a boundary exactly if the search without deferrals does. -/
theorem Enters.reachesBoundary_eq {opened : Opened} {content other : Structure}
    (enters : Enters scope opened content other) :
    content.reachesBoundary scope opened = other.reachesBoundary scope [] := by
  obtain ⟨own, plain, whole, found, matched⟩ := enters.exists_found
  have below : own.children.any (fun child =>
      child.2.reachesBoundary scope (content.opening opened)) =
      plain.children.any fun child => child.2.reachesBoundary scope [] :=
    any_eq_of_forall₂ matched.children fun _ _ related => reachesBoundary_eq related.2.1
  rw [Structure.reachesBoundary_eq, found, whole, reachesBoundary_ready]
  simp only [below, matched.isBoundary_eq]
termination_by sizeOf other
decreasing_by exact related.2.2

/-- The visits of a survey raise the issues that the visits without deferrals raise. -/
theorem Enters.issues_surveyFrom {opened : Opened} {content other : Structure}
    (enters : Enters scope opened content other) (path : List Place) :
    (content.surveyFrom scope opened path).flatMap (·.issues scope) =
      (other.surveyFrom scope [] path).flatMap (·.issues scope) := by
  have ⟨limit, expands, _⟩ := enters
  have kept := (Expands.similarity scope limit).conform_eq expands
  obtain ⟨own, plain, whole, found, matched⟩ := enters.exists_found
  have here : Visit.issues scope ⟨path, content, .found own⟩ =
      Visit.issues scope ⟨path, other, .found plain⟩ := by
    simp only [Visit.issues, Visit.issueKinds, Visit.isInArray, matched.explicit?_eq,
      matched.isBoundary_eq, kept]
    rfl
  have below : own.parts.flatMap (fun part =>
      (part.2.surveyFrom scope (content.opening opened) (path ++ [part.1])).flatMap
        (·.issues scope)) =
      plain.parts.flatMap fun part =>
        (part.2.surveyFrom scope [] (path ++ [part.1])).flatMap (·.issues scope) :=
    flatMap_eq_of_forall₂ matched.parts fun part _ related =>
      related.1 ▸ issues_surveyFrom related.2.1 (path ++ [part.1])
  rw [Structure.surveyFrom_eq, found, whole, surveyFrom_ready]
  rw [List.flatMap_cons, List.flatMap_cons, List.flatMap_assoc, List.flatMap_assoc, here, below,
    whole]
termination_by sizeOf other
decreasing_by exact related.2.2

/-- A structure has the issues of the structure without deferrals. -/
theorem Expands.audit_eq (expands : Expands scope maxHops content other) :
    content.audit scope = other.audit scope :=
  expands.enters.issues_surveyFrom []

/-- A structure has a boundary exactly if the structure without deferrals has one. -/
theorem Expands.hasBoundary_eq (expands : Expands scope maxHops content other) :
    content.hasBoundary scope = other.hasBoundary scope :=
  expands.enters.reachesBoundary_eq

/-- Two structures are compiled, as whatever and wherever, to trees that show the same. -/
def CompilesAlike (scope : Scope) (content other : Structure) : Prop :=
  ∀ boundary mount, ∃ tree instead, content.compileAs scope boundary mount = some (.ok tree) ∧
    other.compileAs scope boundary mount = some (.ok instead) ∧
    tree.map CompiledLeaf.view = instead.map CompiledLeaf.view

/-- Two children of branches have the same name and show the same. -/
def ShowsAlike (compiled instead : String × Tree CompiledLeaf) : Prop :=
  compiled.1 = instead.1 ∧ compiled.2.map CompiledLeaf.view = instead.2.map CompiledLeaf.view

/-- Branches whose children show the same one by one show the same. -/
theorem map_view_branch {location : String} {boundary : Bool}
    {compiled insteads : List (String × Tree CompiledLeaf)}
    (each : List.Forall₂ ShowsAlike compiled insteads) :
    (Tree.branch location boundary compiled).map CompiledLeaf.view =
      (Tree.branch location boundary insteads).map CompiledLeaf.view := by
  rw [Tree.map, Tree.map, Tree.mapChildren_eq_map, Tree.mapChildren_eq_map]
  have same : List.Forall₂ Eq
      (compiled.map fun child => (child.1, child.2.map CompiledLeaf.view))
      (insteads.map fun child => (child.1, child.2.map CompiledLeaf.view)) := by
    rw [List.forall₂_map_left_iff, List.forall₂_map_right_iff]
    exact each.imp fun left right alike => Prod.ext alike.1 alike.2
  rw [List.forall₂_eq_eq_eq] at same
  rw [same]

/-- A child of a shape and the one without deferrals are compiled, under one name, to trees that
show the same. -/
theorem Expands.exists_compiledUnder {child plain : String × Structure} (named : child.1 = plain.1)
    (expands : Expands scope maxHops child.2 plain.2)
    (alike : CompilesAlike scope child.2 plain.2) (mount : Mount) :
    ∃ compiled instead, CompiledUnder scope mount child compiled ∧
      CompiledUnder scope mount plain instead ∧ ShowsAlike compiled instead := by
  obtain ⟨name, content⟩ := child
  obtain ⟨_, other⟩ := plain
  obtain rfl := named
  have bounds := expands.hasBoundary_eq
  have marks := expands.resolve_matches.isBoundary_eq
  by_cases bounded : other.hasBoundary scope
  · obtain ⟨tree, instead, made, also, same⟩ :=
      alike (content.resolve scope).isBoundary (mount.child name)
    refine ⟨(name, tree), (name, instead), ⟨rfl, ?_⟩, ⟨rfl, ?_⟩, ⟨rfl, same⟩⟩
    · rwa [if_pos (bounds.trans bounded)]
    · rwa [if_pos bounded, ← marks]
  · obtain ⟨leaf, instead, made, also, same⟩ :=
      (Expands.similarity scope maxHops).compileLeaf_view expands (mount.child name)
    have alikeLeaves := congrArg Tree.leaf same
    refine ⟨(name, .leaf leaf), (name, .leaf instead), ⟨rfl, ?_⟩, ⟨rfl, ?_⟩, ⟨rfl, alikeLeaves⟩⟩
    · rw [if_neg (by rwa [bounds])]
      exact ⟨leaf, made, rfl⟩
    · rw [if_neg bounded]
      exact ⟨instead, also, rfl⟩

/-- A structure and the one without deferrals are both compiled, to trees that show the same. -/
theorem Expands.compilesAlike {content other : Structure}
    (expands : Expands scope maxHops content other) : CompilesAlike scope content other := by
  intro boundary mount
  have matched := expands.inner_matches
  by_cases shaped : (content.inner scope).tag = .shape
  · obtain ⟨children, wildcard, explicit, node⟩ := Node.eq_shape_of_tag shaped
    rw [node] at matched
    generalize plain : other.inner scope = plainNode at matched
    cases matched with
    | shape explicit each wild =>
      have pairs : List.Forall₂ (fun child plain => ∃ compiled instead,
          CompiledUnder scope mount child compiled ∧ CompiledUnder scope mount plain instead ∧
            ShowsAlike compiled instead) children _ :=
        each.imp fun child plain related =>
          exists_compiledUnder related.1 related.2.1 related.2.1.compilesAlike mount
      obtain ⟨compiled, insteads, first, second, same⟩ := exists_outputs_of_forall₂ pairs
      exact ⟨_, _, compileAs_eq_branch node first, compileAs_eq_branch plain second,
        map_view_branch same⟩
  · have also : (other.inner scope).tag ≠ .shape := matched.tag_eq ▸ shaped
    obtain ⟨leaf, instead, made, alsoMade, same⟩ :=
      (Expands.similarity scope maxHops).compileLeaf_view expands mount
    exact ⟨.leaf leaf, .leaf instead, compileAs_eq_leaf shaped made,
      compileAs_eq_leaf also alsoMade, congrArg Tree.leaf same⟩
termination_by sizeOf other
decreasing_by exact related.2.2

/-- The inner node is written without deferrals if the structure is. -/
theorem Expands.ready_inner (expands : Expands scope limit content other) :
    Expands scope limit (.ready (content.inner scope)) (.ready (other.inner scope)) := by
  exact .node (resolve?_ready scope _) expands.inner_matches fun _ _ further => further.1

end Structure

/-- Replacing payloads twice is replacing them once. -/
theorem Tree.map_map {α β γ : Type} (f : α → β) (g : β → γ) (tree : Tree α) :
    (tree.map f).map g = tree.map fun payload => g (f payload) := by
  induction tree using Tree.induct with
  | leaf payload => rfl
  | branch location boundary children hypothesis =>
    simp only [map, mapChildren_eq_map, List.map_map]
    congr 1
    exact List.map_congr_left fun child member => Prod.ext rfl (hypothesis child member)

namespace Chunk

variable {scope : Scope} {content other : Structure}

/-- As a chunk a structure and the one without deferrals are compiled to trees that show the same,
with the same reset. -/
theorem compile_of_expands (expands : content.Expands scope maxHops other) (mount : Mount) :
    ∃ tree instead resetAll, compile scope content mount = some (.ok (tree, resetAll)) ∧
      compile scope other mount = some (.ok (instead, resetAll)) ∧
      tree.map CompiledLeaf.view = instead.map CompiledLeaf.view := by
  have inner := expands.ready_inner
  by_cases bounded : (Structure.ready (other.inner scope)).hasBoundary scope
  · obtain ⟨tree, instead, made, also, same⟩ := inner.compilesAlike true mount
    refine ⟨tree, instead, some (.of .resetAll mount.location), ?_, ?_, same⟩
    · rw [compile, if_pos (inner.hasBoundary_eq.trans bounded), Structure.compile, made]
      rfl
    · rw [compile, if_pos bounded, Structure.compile, also]
      rfl
  · obtain ⟨leaf, instead, made, also, same⟩ :=
      (Structure.Expands.similarity scope maxHops).compileLeaf_view inner mount
    refine ⟨.leaf leaf, .leaf instead, none, ?_, ?_, congrArg Tree.leaf same⟩
    · rw [compile, if_neg (by rwa [inner.hasBoundary_eq]), made]
      rfl
    · rw [compile, if_neg bounded, also]
      rfl

/-- Two chunks do the same: their trees have the same names, locations, marks, actions, reducers and
selectors, and they have the same reset of the whole. -/
structure IsLike (chunk instead : Chunk) : Prop where
  /-- They have the same name. -/
  name : chunk.name = instead.name
  /-- They are at the same location. -/
  location : chunk.location = instead.location
  /-- They are reset as a whole alike. -/
  resetAll : chunk.resetAll = instead.resetAll
  /-- They have the same tree of actions. -/
  actions : chunk.actions = instead.actions
  /-- They have the same tree of reducers. -/
  reducers : chunk.reducers = instead.reducers
  /-- They have the same tree of selectors. -/
  selectors : chunk.selectors = instead.selectors
  /-- They start from the same state. -/
  initialState : chunk.initialState = instead.initialState
  /-- They come to the same state. -/
  reduce : ∀ state action, chunk.reducer.reduce state action = instead.reducer.reduce state action

/-- Chunks whose trees show the same do the same. -/
theorem isLike_of_map_view {name location : String} {tree instead : Tree CompiledLeaf}
    {resetAll : Option Creator}
    (same : tree.map CompiledLeaf.view = instead.map CompiledLeaf.view) :
    IsLike ⟨name, location, tree, resetAll⟩ ⟨name, location, instead, resetAll⟩ := by
  have shown {β : Type} (f : LeafActions × Reducer × Selector → β) :
      (tree.map fun compiled => f compiled.view) = instead.map fun compiled => f compiled.view :=
    calc
      (tree.map fun compiled => f compiled.view) = (tree.map CompiledLeaf.view).map f :=
        (Tree.map_map _ f tree).symm
      _ = (instead.map CompiledLeaf.view).map f := congrArg (Tree.map f) same
      _ = instead.map fun compiled => f compiled.view := Tree.map_map _ f instead
  have reducers : Chunk.reducers ⟨name, location, tree, resetAll⟩ =
      Chunk.reducers ⟨name, location, instead, resetAll⟩ := shown fun shows => shows.2.1
  have reducer : Chunk.reducer ⟨name, location, tree, resetAll⟩ =
      Chunk.reducer ⟨name, location, instead, resetAll⟩ := congrArg Tree.combined reducers
  exact ⟨rfl, rfl, rfl, shown fun shows => shows.1, reducers, shown fun shows => shows.2.2,
    congrArg Reducer.initialState reducer,
    fun state action => congrArg (Reducer.reduce · state action) reducer⟩

/-- Deferring positions of a structure without deferrals changes nothing, as long as each is
followed within the limit on hops and on no way more of them are deferred than may be open: the
issues are the same, in the same order, and at every mount both structures are not built, with the
same error, or are built as chunks that do the same. -/
theorem build_of_expands (expands : content.Expands scope maxHops other) :
    content.audit scope = other.audit scope ∧ ∀ name options,
      (∃ error, build scope name content options = some (.error error) ∧
        build scope name other options = some (.error error)) ∨
      ∃ chunk instead, build scope name content options = some (.ok chunk) ∧
        build scope name other options = some (.ok instead) ∧ chunk.IsLike instead := by
  have issues := expands.audit_eq
  refine ⟨issues, fun name options => ?_⟩
  cases clean : other.audit scope with
  | nil =>
    obtain ⟨tree, instead, resetAll, made, also, same⟩ :=
      compile_of_expands expands (mount name options)
    refine .inr ⟨⟨name, (mount name options).location, tree, resetAll⟩,
      ⟨name, (mount name options).location, instead, resetAll⟩, ?_, ?_, isLike_of_map_view same⟩
    · simp only [build, issues, clean, made]
      rfl
    · simp only [build, clean, also]
      rfl
  | cons issue others =>
    refine .inl ⟨.invalidStructure (issue :: others), ?_, ?_⟩
    · simp only [build, issues, clean]
    · simp only [build, clean]

/-- The boundary around the number, deferred. -/
def delayedInside : Structure :=
  .delayed 1 (.boundary (.delayed 0 (.shape [("b", .delayed 0 (.scalar .number none))] none none)))

/-- The two names, with the boundary deferred and the whole deferred twice. -/
def delayedNames : Structure :=
  .delayed 2 (.shape [("a", delayedInside), ("a.b", .delayed 0 (.scalar .string none))] none none)

/-- Without deferrals these are the two names. -/
theorem expands_delayedNames : delayedNames.Expands noLabels maxHops twoNames := by
  have scalar (kind : Kind) : Structure.Expands noLabels (0 + 0)
      (.delayed 0 (.scalar kind none)) (.scalar kind) :=
    .of_delayed (Nat.zero_le maxHops) (.scalar kind none)
  have shape : Structure.Expands noLabels (0 + 0)
      (.delayed 0 (.shape [("b", .delayed 0 (.scalar .number none))] none none))
      (.ready (.shape [("b", .scalar .number)] none none)) :=
    .of_delayed (Nat.zero_le maxHops) (.shape none (.cons ⟨rfl, scalar .number⟩ .nil) .none)
  have boundary : Structure.Expands noLabels (0 + 1) delayedInside inside :=
    .of_delayed (show 1 ≤ maxHops by decide) (.boundary shape)
  have whole : Structure.Expands noLabels (1 + 1) delayedNames twoNames :=
    .of_delayed (show 2 ≤ maxHops by decide) (.shape none
      (.cons ⟨rfl, boundary⟩ (.cons ⟨rfl, (scalar .string).of_le (Nat.zero_le 1)⟩ .nil)) .none)
  exact whole.of_le (by decide)

/-- The two names are built as a chunk that does the same however they are deferred. -/
theorem build_of_expands_delayedNames :
    delayedNames.Expands noLabels maxHops twoNames ∧ delayedNames.audit noLabels = [] ∧
      ∃ chunk, build noLabels "app" delayedNames {} = some (.ok chunk) ∧
        chunk.actions = twoNamesChunk.actions ∧ chunk.resetAll = some (.of .resetAll "app") ∧
        chunk.initialState = twoNamesChunk.initialState := by
  obtain ⟨issues, builds⟩ := build_of_expands expands_delayedNames
  have clean := (build_cases build_twoNames).1
  refine ⟨expands_delayedNames, issues.trans clean, ?_⟩
  rcases builds "app" {} with ⟨error, -, failed⟩ | ⟨chunk, instead, built, also, alike⟩
  · rw [build_twoNames] at failed
    exact nomatch failed
  · obtain rfl := Except.ok.inj (Option.some.inj (build_twoNames.symm.trans also))
    exact ⟨chunk, built, alike.actions, alike.resetAll, alike.initialState⟩

end Chunk

end StateSlice
