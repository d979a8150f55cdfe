import StateSlice.Proofs.Defaults

/-!
# Nodes inside boundaries

A position is treated by its inner node. Where following its deferrals or looking through its
boundaries comes to nothing, the placeholder stands in for a node, and everything that is put there
is rejected. The audit follows the deferrals of every place that it visits, and another default for
the placeholder does not fit it; so after a clean audit a position of the compiled tree leads
nowhere only if the limit on open deferrals stopped the audit on the way. But the audit goes into
boundaries one by one, however deep they nest, while the inner node is looked for through only so
many of them.
-/
namespace StateSlice

open Json (Value)

namespace Structure

variable {scope : Scope} {root content position : Structure} {node : Node}

/-- The node of a structure inside its boundaries, if it is found in the given number of looks. -/
def innerWithin? (scope : Scope) : (looks : Nat) → Structure → Option Node
  | 0, _ => none
  | looks + 1, content =>
    match content.resolve? scope with
    | some (.boundary inner) => innerWithin? scope looks inner
    | found => found

/-- The node of a structure inside its boundaries, if there is one within the limits. -/
def inner? (scope : Scope) (content : Structure) : Option Node :=
  content.innerWithin? scope (maxHops + 1)

/-- Looking through boundaries comes to the node that is found, or to the placeholder. -/
theorem lookThrough_eq_getD (scope : Scope) (looks : Nat) (content : Structure) :
    (content.resolve scope).lookThrough scope looks =
      (content.innerWithin? scope looks).getD .placeholder := by
  induction looks generalizing content with
  | zero => rfl
  | succ looks hypothesis =>
    rw [resolve, innerWithin?]
    cases content.resolve? scope with
    | none => rfl
    | some node =>
      cases node with
      | boundary inner => exact hypothesis inner
      | _ => rfl

/-- The inner node is the one that is found, or else the placeholder. -/
theorem inner_eq_getD (scope : Scope) (content : Structure) :
    content.inner scope = (content.inner? scope).getD .placeholder :=
  lookThrough_eq_getD scope (maxHops + 1) content

/-- A number of boundaries, one directly inside another, lead from a structure to what is inside
them. -/
def Wraps (scope : Scope) : (boundaries : Nat) → Structure → Structure → Prop
  | 0, content, below => content = below
  | boundaries + 1, content, below => ∃ inner,
    content.resolve? scope = some (.boundary inner) ∧ Wraps scope boundaries inner below

/-- In a number of boundaries, one directly inside another, a structure has a node that is none. -/
def Encloses (scope : Scope) (boundaries : Nat) (content : Structure) (node : Node) : Prop :=
  ∃ below, content.Wraps scope boundaries below ∧ below.resolve? scope = some node ∧
    node.isBoundary = false

/-- A structure is a number of boundaries, one directly inside another, and maybe more. -/
def Nests (scope : Scope) (boundaries : Nat) (content : Structure) : Prop :=
  ∃ below, content.Wraps scope boundaries below

/-- Where there are boundaries, there are fewer. -/
theorem Nests.of_le {fewer boundaries : Nat} (nests : content.Nests scope boundaries)
    (less : fewer ≤ boundaries) : content.Nests scope fewer := by
  induction fewer generalizing content boundaries with
  | zero => exact ⟨content, rfl⟩
  | succ fewer hypothesis =>
    cases boundaries with
    | zero => omega
    | succ boundaries =>
      obtain ⟨below, inner, resolved, further⟩ := nests
      obtain ⟨last, wraps⟩ := hypothesis ⟨below, further⟩ (Nat.le_of_succ_le_succ less)
      exact ⟨last, inner, resolved, wraps⟩

/-- In no boundaries is what a structure resolves to. -/
theorem encloses_zero_iff : content.Encloses scope 0 node ↔
    content.resolve? scope = some node ∧ node.isBoundary = false := by
  simp [Encloses, Wraps]

/-- What a boundary encloses is in one boundary more. -/
theorem encloses_succ_iff {boundaries : Nat} : content.Encloses scope (boundaries + 1) node ↔
    ∃ inner, content.resolve? scope = some (.boundary inner) ∧
      inner.Encloses scope boundaries node := by
  constructor
  · rintro ⟨below, ⟨inner, resolved, wraps⟩, own⟩
    exact ⟨inner, resolved, below, wraps, own⟩
  · rintro ⟨inner, resolved, below, wraps, own⟩
    exact ⟨below, ⟨inner, resolved, wraps⟩, own⟩

/-- A node is found exactly if it is enclosed in fewer boundaries than there are looks. -/
theorem innerWithin?_eq_some_iff {looks : Nat} :
    content.innerWithin? scope looks = some node ↔
      ∃ boundaries < looks, content.Encloses scope boundaries node := by
  induction looks generalizing content with
  | zero => simp [innerWithin?]
  | succ looks hypothesis =>
    rw [Nat.exists_lt_succ_left, innerWithin?]
    cases resolved : content.resolve? scope with
    | none => simp [encloses_zero_iff, encloses_succ_iff, resolved]
    | some own =>
      cases own with
      | boundary inner =>
        have here : ¬ content.Encloses scope 0 node := by
          rw [encloses_zero_iff, resolved]
          rintro ⟨own, plain⟩
          obtain rfl := Option.some.inj own
          simp [Node.isBoundary] at plain
        have inside (boundaries : Nat) : content.Encloses scope (boundaries + 1) node ↔
            inner.Encloses scope boundaries node := by
          simp [encloses_succ_iff, resolved]
        simp only [here, inside, false_or]
        exact hypothesis
      | _ =>
        simp only [encloses_zero_iff, encloses_succ_iff, resolved, Option.some.injEq, reduceCtorEq,
          false_and, exists_false, and_false, or_false, iff_self_and]
        rintro rfl
        rfl

/-- The inner node is found exactly if it is enclosed in at most as many boundaries as are looked
through. -/
theorem inner?_eq_some_iff : content.inner? scope = some node ↔
    ∃ boundaries ≤ maxHops, content.Encloses scope boundaries node := by
  simp only [inner?, innerWithin?_eq_some_iff, Nat.lt_succ_iff]

/-- A node that is enclosed in at most as many boundaries as are looked through is the inner
node. -/
theorem inner_of_encloses {boundaries : Nat} (few : boundaries ≤ maxHops)
    (encloses : content.Encloses scope boundaries node) : content.inner scope = node := by
  rw [inner_eq_getD, inner?_eq_some_iff.2 ⟨boundaries, few, encloses⟩, Option.getD_some]

/-- The deferrals of a structure, or of what is inside its boundaries, lead to no node, or another
default is declared for what leads to none. -/
inductive LeadsNowhere (scope : Scope) : Structure → Prop
  /-- Following the structure does not end at a node within the limit on hops. -/
  | here {content : Structure} : content.resolve? scope = none → LeadsNowhere scope content
  /-- Another default is declared for what does not end at a node. -/
  | overridden {content : Structure} {value : Value} :
      content.resolve? scope = some (Node.placeholder.withDefault value) →
      LeadsNowhere scope content
  /-- The structure is a boundary around one that leads nowhere. -/
  | inside {content inner : Structure} : content.resolve? scope = some (.boundary inner) →
      LeadsNowhere scope inner → LeadsNowhere scope content

/-- In a number of looks no node is found for a structure inside its boundaries, or only the
placeholder with another default. -/
def IsDeadWithin (scope : Scope) (looks : Nat) (content : Structure) : Prop :=
  ∀ node, content.innerWithin? scope looks = some node →
    ∃ value, node = Node.placeholder.withDefault value

/-- What leads nowhere is dead in however many looks. -/
theorem LeadsNowhere.isDeadWithin (nowhere : content.LeadsNowhere scope) (looks : Nat) :
    content.IsDeadWithin scope looks := by
  induction nowhere generalizing looks with
  | here unresolved =>
    cases looks <;> simp [IsDeadWithin, innerWithin?, unresolved]
  | @overridden content value resolved =>
    cases looks with
    | zero => simp [IsDeadWithin, innerWithin?]
    | succ looks =>
      intro node found
      rw [innerWithin?, resolved] at found
      exact ⟨value, (Option.some.inj found).symm⟩
  | inside resolved _ hypothesis =>
    cases looks with
    | zero => simp [IsDeadWithin, innerWithin?]
    | succ looks =>
      intro node found
      rw [innerWithin?, resolved] at found
      exact hypothesis looks node found

/-- Boundaries around what leads nowhere lead nowhere. -/
theorem LeadsNowhere.of_wraps {boundaries : Nat} {below : Structure}
    (nowhere : below.LeadsNowhere scope) (wraps : content.Wraps scope boundaries below) :
    content.LeadsNowhere scope := by
  induction boundaries generalizing content with
  | zero => exact wraps ▸ nowhere
  | succ boundaries hypothesis =>
    obtain ⟨inner, resolved, further⟩ := wraps
    exact .inside resolved (hypothesis further)

/-- Nothing is found in as many looks as there are boundaries, one directly inside another. -/
theorem innerWithin?_of_nests {looks : Nat} (nests : content.Nests scope looks) :
    content.innerWithin? scope looks = none := by
  induction looks generalizing content with
  | zero => rfl
  | succ looks hypothesis =>
    obtain ⟨below, inner, resolved, further⟩ := nests
    rw [innerWithin?, resolved]
    exact hypothesis ⟨below, further⟩

/-- Where more boundaries nest than are looked through the inner node is the placeholder. -/
theorem inner_of_nests (nests : content.Nests scope (maxHops + 1)) :
    content.inner scope = .placeholder := by
  have unseen : content.inner? scope = none := innerWithin?_of_nests nests
  rw [inner_eq_getD, unseen, Option.getD_none]

/-- A structure is dead exactly if there are boundaries for all looks, or if it leads nowhere. -/
theorem isDeadWithin_iff {looks : Nat} : content.IsDeadWithin scope looks ↔
    content.Nests scope looks ∨ content.LeadsNowhere scope := by
  constructor
  · intro dead
    induction looks generalizing content with
    | zero => exact .inl ⟨content, rfl⟩
    | succ looks hypothesis =>
      rw [IsDeadWithin, innerWithin?] at dead
      cases resolved : content.resolve? scope with
      | none => exact .inr (.here resolved)
      | some node =>
        cases node with
        | boundary inner =>
          rw [resolved] at dead
          rcases hypothesis dead with ⟨below, nests⟩ | nowhere
          · exact .inl ⟨below, inner, resolved, nests⟩
          · exact .inr (.inside resolved nowhere)
        | _ =>
          rw [resolved] at dead
          obtain ⟨value, same⟩ := dead _ rfl
          exact .inr (.overridden (resolved.trans (congrArg some same)))
  · rintro (nests | nowhere)
    · simp [IsDeadWithin, innerWithin?_of_nests nests]
    · exact nowhere.isDeadWithin looks

/-- The inner node of a structure is no node that was found inside its boundaries, but the
placeholder, as it is or with another default. -/
def IsDead (scope : Scope) (content : Structure) : Prop := content.IsDeadWithin scope (maxHops + 1)

/-- The inner node of a structure that is not dead is enclosed in no more boundaries than are looked
through. -/
theorem exists_encloses_inner (alive : ¬ content.IsDead scope) :
    ∃ boundaries ≤ maxHops, content.Encloses scope boundaries (content.inner scope) := by
  cases found : content.inner? scope with
  | none =>
    have dead : content.IsDead scope := by
      intro node known
      rw [inner?, known] at found
      exact nomatch found
    exact absurd dead alive
  | some node =>
    rw [inner_eq_getD, found, Option.getD_some]
    exact inner?_eq_some_iff.1 found

/-- The inner node of a dead structure is a custom node that accepts nothing. -/
theorem inner_of_isDead (dead : content.IsDead scope) : ∃ message explicit,
    content.inner scope = .custom (fun _ => false) message explicit := by
  rw [inner_eq_getD]
  cases found : content.inner? scope with
  | none => exact ⟨_, none, rfl⟩
  | some node =>
    obtain ⟨value, rfl⟩ := dead node found
    exact ⟨_, some value, rfl⟩

/-- A path of a walk that leads along names has come along the first of them before. -/
theorem Along.exists_of_prefix {path before : List Place} {names : List String}
    (along : Along path names) (ahead : before <+: path) :
    ∃ others, others <+: names ∧ Along before others := by
  induction along with
  | start => exact ⟨[], List.prefix_rfl, List.prefix_nil.1 ahead ▸ .start⟩
  | @inside path names along hypothesis =>
    rcases List.prefix_concat_iff.1 ahead with rfl | earlier
    · exact ⟨names, List.prefix_rfl, along.inside⟩
    · exact hypothesis earlier
  | @child path names name along hypothesis =>
    rcases List.prefix_concat_iff.1 ahead with rfl | earlier
    · exact ⟨names ++ [name], List.prefix_rfl, along.child⟩
    · obtain ⟨others, first, same⟩ := hypothesis earlier
      exact ⟨others, first.trans (List.prefix_append names _), same⟩

/-- In a clean audit a node is found at a place of the walk, now or on the way before, unless the
limit on open deferrals stops the walk there. -/
theorem Visits.cut_or_found {opened : Opened} {path : List Place} {names : List String}
    {place : Structure} (clean : root.audit scope = [])
    (visits : Visits scope root opened path place) (along : Along path names) :
    root.CutOnWay scope names ∨ ∃ fewer before others node, others <+: names ∧
      Along before others ∧ Visits scope root fewer before place ∧
      place.find scope fewer = .found node := by
  cases found : place.find scope opened with
  | found node => exact .inr ⟨opened, path, names, node, List.prefix_rfl, along, visits, found⟩
  | unresolved => exact absurd found (visits.find_ne_unresolved clean)
  | closed =>
    rcases closed_cases found with ⟨label, rfl, member⟩ | full
    · obtain ⟨fewer, before, node, ahead, entered, known⟩ := visits.exists_before_of_mem member
      obtain ⟨others, first, earlier⟩ := along.exists_of_prefix ahead
      exact .inr ⟨fewer, before, others, node, first, earlier, entered, known⟩
    · exact .inl ⟨names, List.prefix_rfl, opened, path, place, along, visits, full⟩

/-- In a clean audit a place of the walk leads nowhere only if the limit on open deferrals stops the
walk on the way to it or inside its boundaries. -/
theorem LeadsNowhere.cutOnWay {opened : Opened} {path : List Place} {names : List String}
    {place : Structure} (nowhere : place.LeadsNowhere scope) (clean : root.audit scope = [])
    (visits : Visits scope root opened path place) (along : Along path names) :
    root.CutOnWay scope names := by
  induction nowhere generalizing opened path names with
  | @here place unresolved =>
    rcases visits.cut_or_found clean along with cut | ⟨_, _, _, node, -, -, -, found⟩
    · exact cut
    · rw [resolve?_of_find found] at unresolved
      exact nomatch unresolved
  | @overridden place value resolved =>
    rcases visits.cut_or_found clean along with cut | ⟨_, _, _, node, -, -, entered, found⟩
    · exact cut
    · obtain rfl := Option.some.inj ((resolve?_of_find found).symm.trans resolved)
      have keeps := keepsDeclared_of_find clean entered found rfl value
      have own : place.inner scope = Node.placeholder.withDefault value := by
        rw [inner, resolve_of_find found, Node.lookThrough_eq_self scope rfl]
      rw [own, conform_of_rejecting own] at keeps
      simpa using keeps rfl
  | @inside place inner resolved _ hypothesis =>
    rcases visits.cut_or_found clean along with
      cut | ⟨_, _, _, node, first, earlier, entered, found⟩
    · exact cut
    · obtain rfl := Option.some.inj ((resolve?_of_find found).symm.trans resolved)
      obtain ⟨more, rfl⟩ := first
      exact (hypothesis (entered.part found List.mem_cons_self) earlier.inside).append more

/-- Compiling a structure comes along names to a position. -/
inductive ComesTo (scope : Scope) : Structure → List String → Structure → Prop
  /-- The structure as a whole is compiled. -/
  | here {content : Structure} : ComesTo scope content [] content
  /-- Every child of the inner node is compiled. -/
  | child {content child : Structure} {name : String} :
      (name, child) ∈ (content.inner scope).children → ComesTo scope content [name] child
  /-- A child that has a boundary is compiled in its turn. -/
  | onward {content child position : Structure} {name : String} {names : List String} :
      (name, child) ∈ (content.inner scope).children → child.hasBoundary scope = true →
      ComesTo scope child names position → ComesTo scope content (name :: names) position

/-- In a clean audit, where compiling comes to a position, the audit visits it, unless the limit on
open deferrals stops the audit on the way. -/
theorem ComesTo.cut_or_visits {names : List String} (comes : content.ComesTo scope names position)
    (clean : root.audit scope = []) {opened : Opened} {before : List String}
    (tracks : Tracks scope root opened before content content) :
    root.CutOnWay scope (before ++ names) ∨ ∃ opened path, Along path (before ++ names) ∧
      Visits scope root opened path position := by
  induction comes generalizing opened before with
  | here =>
    rw [List.append_nil]
    exact .inr ⟨opened, tracks.2⟩
  | @child content child name member =>
    rcases tracks.inner_cases clean with cut | placeholder | ⟨fewer, place, arrived, known⟩
    · exact .inl (cut.append [name])
    · rw [placeholder] at member
      exact absurd member List.not_mem_nil
    · obtain ⟨-, path, along, visits⟩ := arrived
      exact .inr ⟨_, _, along.child, visits.part known (Node.mem_parts_of_mem_children member)⟩
  | @onward content child position name names member bounded _ hypothesis =>
    rcases tracks.inner_cases clean with cut | placeholder | ⟨fewer, place, arrived, known⟩
    · exact .inl (cut.append (name :: names))
    · rw [placeholder] at member
      exact absurd member List.not_mem_nil
    · obtain ⟨follows, path, along, visits⟩ := arrived
      have onward : Tracks scope root (place.opening fewer) (before ++ [name]) child child :=
        ⟨follows.child known member bounded, _, along.child,
          visits.part known (Node.mem_parts_of_mem_children member)⟩
      rw [show before ++ name :: names = before ++ [name] ++ names by simp]
      exact hypothesis onward

/-- Every place of a compiled tree is what the position at its names is compiled to, to which
compiling comes along the same names. -/
theorem exists_comesTo_of_compileAs {boundary : Bool} {mount : Mount} {tree : Tree CompiledLeaf}
    (ends : content.compileAs scope boundary mount = some (.ok tree)) :
    ∀ names place, tree.follow? names = some place → ∃ position,
      content.at? scope names = some position ∧ content.ComesTo scope names position ∧
        position.CompiledTo scope (mount.descend names) place := by
  refine tree_induct (motive := fun _ content mount tree => ∀ names place,
    tree.follow? names = some place → ∃ position, content.at? scope names = some position ∧
      content.ComesTo scope names position ∧
        position.CompiledTo scope (mount.descend names) place) ?_ ?_ ends
  · intro boundary content mount leaf plain made names place found
    obtain ⟨rfl, rfl⟩ := Tree.follow?_leaf_eq_some_iff.1 found
    exact ⟨content, rfl, .here, made⟩
  · intro boundary content mount children wildcard explicit compiled node related names place found
    have declared : (content.inner scope).children = children := by rw [node]; rfl
    cases names with
    | nil =>
      obtain rfl := Option.some.inj found
      have same := names_of_compiled (fun _ _ compiledFrom => compiledFrom.1) related
      exact ⟨content, rfl, .here, rfl, by rw [declared, same]⟩
    | cons name names =>
      obtain ⟨entry, search, further⟩ := Tree.follow?_branch_eq_some_iff.1 found
      obtain ⟨child, first, -, below⟩ :=
        child?_of_compiled (fun _ _ compiledFrom => compiledFrom.1) related search
      have member : (name, child) ∈ (content.inner scope).children := declared ▸ mem_of_child? first
      have onward : content.at? scope (name :: names) = child.at? scope names := by
        rw [at?, declared, first, Option.bind_some]
      rw [onward]
      by_cases bounded : child.hasBoundary scope
      · rw [if_pos bounded] at below
        obtain ⟨position, known, comes, placed⟩ := below names place further
        exact ⟨position, known, .onward member bounded comes, placed⟩
      · rw [if_neg bounded] at below
        obtain ⟨leaf, made, same⟩ := below
        rw [same] at further
        obtain ⟨rfl, rfl⟩ := Tree.follow?_leaf_eq_some_iff.1 further
        exact ⟨child, rfl, .child member, made⟩

/-- Compiling the inner node of a structure comes to the positions to which compiling the structure
comes. -/
theorem ComesTo.of_ready_inner {names : List String}
    (comes : (Structure.ready (content.inner scope)).ComesTo scope names position)
    (known : (Structure.ready (content.inner scope)).at? scope names = some position) :
    ∃ other, content.at? scope names = some other ∧ content.ComesTo scope names other ∧
      other.inner scope = position.inner scope := by
  cases comes with
  | here => exact ⟨content, rfl, .here, (content.inner_ready_inner scope).symm⟩
  | child member =>
    rw [at?, inner_ready_inner] at known
    rw [inner_ready_inner] at member
    exact ⟨position, known, .child member, rfl⟩
  | onward member bounded further =>
    rw [at?, inner_ready_inner] at known
    rw [inner_ready_inner] at member
    exact ⟨position, known, .onward member bounded further, rfl⟩

/-- After a clean audit, a position to which compiling comes is dead exactly if more boundaries nest
directly at it than are looked through, or if it leads nowhere and the limit on open deferrals
stopped the audit on the way. -/
theorem ComesTo.isDead_iff {names : List String} (comes : content.ComesTo scope names position)
    (clean : content.audit scope = []) :
    position.IsDead scope ↔ position.Nests scope (maxHops + 1) ∨
      position.LeadsNowhere scope ∧ content.CutOnWay scope names := by
  constructor
  · intro dead
    rcases isDeadWithin_iff.1 dead with nests | nowhere
    · exact .inl nests
    · have start : Tracks scope content [] [] content content := ⟨.root, [], .start, .root⟩
      rcases comes.cut_or_visits clean start with cut | ⟨opened, path, along, visits⟩
      · exact .inr ⟨nowhere, cut⟩
      · exact .inr ⟨nowhere, nowhere.cutOnWay clean visits along⟩
  · rintro (nests | ⟨nowhere, -⟩)
    · exact isDeadWithin_iff.2 (.inl nests)
    · exact isDeadWithin_iff.2 (.inr nowhere)

/-- A leaf of a chunk has the inner node of the position at its names, and compiling comes to that
position. -/
theorem exists_comesTo_of_leaf? {name : String} {options : ChunkOptions} {chunk : Chunk}
    {names : List String} {compiled : CompiledLeaf}
    (built : Chunk.build scope name content options = some (.ok chunk))
    (found : chunk.tree.leaf? names = some compiled) :
    ∃ position, content.at? scope names = some position ∧
      content.ComesTo scope names position ∧
      compiled.leaf.content.inner scope = position.inner scope ∧
      ∃ mount, compiled.leaf.content.compileLeaf scope mount = .ok compiled := by
  have leads := Tree.follow?_of_leaf? found
  obtain ⟨place, known, comes, made⟩ : ∃ place,
      (Structure.ready (content.inner scope)).at? scope names = some place ∧
      (Structure.ready (content.inner scope)).ComesTo scope names place ∧
      place.CompiledTo scope ((Chunk.mount name options).descend names) (.leaf compiled) := by
    obtain ⟨-, ends, -⟩ := Chunk.build_cases built
    rcases Chunk.compile_cases ends with ⟨whole, -⟩ | ⟨-, leaf, made, tree⟩
    · exact exists_comesTo_of_compileAs whole names _ leads
    · rw [tree] at leads
      obtain ⟨rfl, same⟩ := Tree.follow?_leaf_eq_some_iff.1 leads
      exact ⟨_, rfl, .here, same ▸ made⟩
  obtain ⟨position, declared, arrives, same⟩ := comes.of_ready_inner known
  obtain rfl := content_of_compileLeaf made
  exact ⟨position, declared, arrives, same.symm, _, made⟩

end Structure

/-- The replace action of a leaf puts its payload into the leaf. -/
theorem Leaf.reduce_replace {leaf : Leaf} {action : Action}
    (asks : action.type = Operation.replace.actionType leaf.location) (state : Option Value) :
    leaf.reducer.reduce state action = leaf.replace (state.getD leaf.initial) action.payload := by
  have has : Operation.replace ∈ leaf.actions.operations := by
    cases kind : leaf.actions.kind <;> simp [LeafActions.operations, kind]
  exact reduce_of_mem_operations has asks state

namespace Structure

variable {scope : Scope} {content position : Structure}

/-- What is put into the leaf of a dead structure is rejected: replacing leaves its state as it
is. -/
theorem IsDead.reduce_replace {mount : Mount} {compiled : CompiledLeaf} {action : Action}
    (dead : position.IsDead scope) (same : content.inner scope = position.inner scope)
    (made : content.compileLeaf scope mount = .ok compiled)
    (asks : action.type = Operation.replace.actionType compiled.leaf.location)
    (state : Option Value) :
    compiled.leaf.reducer.reduce state action = state.getD compiled.leaf.initial := by
  rw [Leaf.reduce_replace asks]
  obtain ⟨message, explicit, own⟩ := inner_of_isDead dead
  obtain ⟨container, isFor, rfl⟩ := eq_of_compileLeaf made
  rw [same, own] at isFor
  cases isFor with
  | value owned =>
    obtain rfl := Option.some.inj owned
    rfl
  | shape shaped => exact nomatch shaped
  | array listed => exact nomatch listed

/-- After a clean audit, wherever compiling comes along names, the position there is dead exactly if
more boundaries nest directly at it than are looked through, or if it leads nowhere and the limit on
open deferrals stopped the audit on the way; in every other position the inner node is one that is
declared inside the boundaries. What a chunk has as a leaf in place of a dead position rejects every
replacement. -/
theorem isDead_iff_of_audit (clean : content.audit scope = []) :
    (∀ names position, content.ComesTo scope names position →
      (position.IsDead scope ↔ position.Nests scope (maxHops + 1) ∨
        position.LeadsNowhere scope ∧ content.CutOnWay scope names) ∧
      (¬ position.IsDead scope → ∃ boundaries ≤ maxHops,
        position.Encloses scope boundaries (position.inner scope))) ∧
    (∀ mount tree names place, content.compile scope mount = some (.ok tree) →
      tree.follow? names = some place → ∃ position, content.ComesTo scope names position ∧
        position.CompiledTo scope (mount.descend names) place) ∧
    ∀ name options chunk names compiled,
      Chunk.build scope name content options = some (.ok chunk) →
      chunk.tree.leaf? names = some compiled → ∃ position,
        content.ComesTo scope names position ∧
        compiled.leaf.content.inner scope = position.inner scope ∧
        (position.IsDead scope → ∀ (state : Option Value) (action : Action),
          action.type = Operation.replace.actionType compiled.leaf.location →
          compiled.leaf.reducer.reduce state action = state.getD compiled.leaf.initial) := by
  refine ⟨fun names position comes => ⟨comes.isDead_iff clean, exists_encloses_inner⟩, ?_, ?_⟩
  · intro mount tree names place ends found
    obtain ⟨position, -, comes, placed⟩ := exists_comesTo_of_compileAs ends names place found
    exact ⟨position, comes, placed⟩
  · intro name options chunk names compiled built found
    obtain ⟨position, -, comes, same, mount, made⟩ := exists_comesTo_of_leaf? built found
    exact ⟨position, comes, same, fun dead state action asks =>
      dead.reduce_replace same made asks state⟩

/-- A number in some boundaries, one directly inside another. -/
def nested : Nat → Structure
  | 0 => .scalar .number
  | boundaries + 1 => .boundary (nested boundaries)

/-- Nested boundaries pass the audit, however many they are. -/
theorem audit_nested (scope : Scope) (boundaries : Nat) : (nested boundaries).audit scope = [] := by
  have quiet (path : List Place) (outside : Place.element ∉ path) :
      ∀ visit ∈ (nested boundaries).surveyFrom scope [] path, visit.issueKinds scope = [] := by
    induction boundaries generalizing path with
    | zero =>
      simp [nested, Structure.scalar, Node.parts, Visit.issueKinds, Node.explicit?,
        Node.isBoundary]
    | succ boundaries hypothesis =>
      have further := hypothesis (path ++ [.inside]) (by simpa using outside)
      rw [nested, Structure.boundary, surveyFrom_ready]
      intro visit visited
      rcases List.mem_cons.1 visited with rfl | below
      · simp [Visit.issueKinds, Node.explicit?, Visit.isInArray, outside]
      · exact further visit (by simpa [Node.parts] using below)
  exact audit_eq_nil_iff.2 (quiet [] List.not_mem_nil)

/-- Nested boundaries have the number inside. -/
theorem wraps_nested (scope : Scope) (boundaries : Nat) :
    (nested boundaries).Wraps scope boundaries (.scalar .number) := by
  induction boundaries with
  | zero => rfl
  | succ boundaries hypothesis => exact ⟨nested boundaries, rfl, hypothesis⟩

end Structure

namespace Chunk

/-- One boundary around a number more than is looked through. -/
def tooDeep : Structure := .nested (maxHops + 1)

/-- The leaf in place of the number. -/
def deadLeaf : CompiledLeaf :=
  ⟨⟨noLabels, .ready .placeholder, .value (.ofCheck fun _ => false), .null, "n"⟩, .key "n"⟩

/-- The chunk of the leaf. -/
def deadChunk : Chunk := ⟨"n", "n", .leaf deadLeaf, none⟩

/-- The chunk is built. -/
theorem build_tooDeep : build noLabels "n" tooDeep {} = some (.ok deadChunk) := by
  have clean : tooDeep.audit noLabels = [] := Structure.audit_nested noLabels (maxHops + 1)
  have own : tooDeep.inner noLabels = .placeholder :=
    Structure.inner_of_nests ⟨_, Structure.wraps_nested noLabels (maxHops + 1)⟩
  have unbounded : (Structure.ready .placeholder).hasBoundary noLabels = false :=
    Structure.hasBoundary_of_find rfl rfl rfl
  simp only [build, clean, compile, own, unbounded]
  rfl

/-- A number in one boundary more than is looked through passes the audit, but the leaf of the chunk
rejects every number. -/
theorem isDead_iff_of_audit_tooDeep :
    let creator : Creator := .of .replace "n"
    let next := deadLeaf.leaf.reducer.reduce none (creator.create (.number (.int 5)))
    tooDeep.audit noLabels = [] ∧
      tooDeep.Encloses noLabels (maxHops + 1) (.scalar .number none) ∧
      build noLabels "n" tooDeep {} = some (.ok deadChunk) ∧
      tooDeep.IsDead noLabels ∧ next = .null := by
  intro creator next
  have clean : tooDeep.audit noLabels = [] := Structure.audit_nested noLabels (maxHops + 1)
  have wraps := Structure.wraps_nested noLabels (maxHops + 1)
  obtain ⟨positions, -, leaves⟩ := Structure.isDead_iff_of_audit clean
  obtain ⟨position, comes, -, rejects⟩ := leaves "n" {} deadChunk [] deadLeaf build_tooDeep rfl
  obtain rfl : tooDeep = position := by
    cases comes
    rfl
  have dead : tooDeep.IsDead noLabels := (positions [] tooDeep comes).1.2 (.inl ⟨_, wraps⟩)
  have kept : next = .null := rejects dead none (creator.create (.number (.int 5))) rfl
  exact ⟨clean, ⟨_, wraps, rfl, rfl⟩, build_tooDeep, dead, kept⟩

end Chunk

end StateSlice
