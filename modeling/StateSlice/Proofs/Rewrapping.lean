import StateSlice.Proofs.IgnoredBoundaries
import StateSlice.Proofs.InnerNodes
import StateSlice.Proofs.Similarity

/-!
# Wrappers that make no difference

A position can be wrapped: a boundary may be put around it, and it may be deferred. Taking the
wrappers off leads to the node inside. Two structures, each in its scope, are the same but for their
wrappers if the nodes inside match and their parts are such structures again; this is the largest
relation of that kind, so it is about structures that refer to themselves too. Wherever wrappers are
put on or taken off, what is sanitized stays the same, as long as no position has more hops or more
boundaries directly inside one another than are followed.
-/
namespace StateSlice

open Json (Value)

namespace Structure

/-- Following a structure and going into its boundaries, however many hops and boundaries there are,
leads to a node that is no boundary. -/
inductive StripsTo (scope : Scope) : Structure → Node → Prop
  /-- The structure leads to the node. -/
  | node {content : Structure} {node : Node} :
      content.LeadsTo scope node → node.isBoundary = false → StripsTo scope content node
  /-- The structure leads to a boundary, and the node is inside. -/
  | inside {content inner : Structure} {node : Node} :
      content.LeadsTo scope (.boundary inner) → StripsTo scope inner node →
      StripsTo scope content node

/-- The nodes inside the wrappers of related structures match, and so do their parts in turn. -/
def IsRewrapping (left right : Scope) (R : Structure → Structure → Prop) : Prop :=
  ∀ content other, R content other → ∃ node otherNode, content.StripsTo left node ∧
    other.StripsTo right otherNode ∧ node.Matches R otherNode

/-- Two structures, each in its scope, are the same but for the wrappers at their positions. -/
def Rewraps (left right : Scope) (content other : Structure) : Prop :=
  ∃ R, IsRewrapping left right R ∧ R content other

/-- At every position of the unfolding of a structure, no more hops lead to a node than are
followed, and no more boundaries are directly inside one another than are looked through. -/
structure WithinLimits (scope : Scope) (content : Structure) : Prop where
  /-- A node is reached within the limit on hops. -/
  resolves : ∀ path position, Unfolds scope content path position →
    position.resolve? scope ≠ none
  /-- There is no boundary more than is looked through. -/
  shallow : ∀ path position, Unfolds scope content path position →
    ¬ position.Nests scope (maxHops + 1)

variable {scope left right : Scope} {content other : Structure} {node : Node}

/-- A node at hand leads to itself alone. -/
theorem leadsTo_ready_iff {own : Node} : (ready own).LeadsTo scope node ↔ own = node := by
  simp [LeadsTo, landing]

/-- Deferring a structure does not change where it leads. -/
theorem leadsTo_lazily_iff : (lazily content).LeadsTo scope node ↔ content.LeadsTo scope node := by
  rw [LeadsTo, LeadsTo, lazily, landing, Deferral.landing]
  cases content.landing scope <;> simp [Landing.later]

/-- The node inside the wrappers of a structure is one. -/
theorem StripsTo.unique {another : Node} (strips : content.StripsTo scope node)
    (also : content.StripsTo scope another) : node = another := by
  induction strips with
  | node leads plain =>
    cases also with
    | node same _ => exact leads.eq same
    | inside same _ =>
      rw [leads.eq same] at plain
      exact nomatch plain
  | inside leads _ hypothesis =>
    cases also with
    | node same plain =>
      rw [← leads.eq same] at plain
      exact nomatch plain
    | inside same further =>
      obtain rfl := Node.boundary.inj (leads.eq same)
      exact hypothesis further

/-- The node inside a boundary is that inside what it encloses. -/
theorem stripsTo_boundary_iff :
    (boundary content).StripsTo scope node ↔ content.StripsTo scope node := by
  constructor
  · intro strips
    cases strips with
    | node leads plain =>
      rw [← leadsTo_ready_iff.1 leads] at plain
      exact nomatch plain
    | inside leads further =>
      obtain rfl := Node.boundary.inj (leadsTo_ready_iff.1 leads)
      exact further
  · exact .inside (leadsTo_ready_iff.2 rfl)

/-- The node inside a deferral is that inside what it produces. -/
theorem stripsTo_lazily_iff :
    (lazily content).StripsTo scope node ↔ content.StripsTo scope node := by
  constructor
  · intro strips
    cases strips with
    | node leads plain => exact .node (leadsTo_lazily_iff.1 leads) plain
    | inside leads further => exact .inside (leadsTo_lazily_iff.1 leads) further
  · intro strips
    cases strips with
    | node leads plain => exact .node (leadsTo_lazily_iff.2 leads) plain
    | inside leads further => exact .inside (leadsTo_lazily_iff.2 leads) further

/-- Structures are the same but for their wrappers exactly if the nodes inside match and their parts
are the same but for their wrappers. -/
theorem rewraps_iff : Rewraps left right content other ↔
    ∃ node otherNode, content.StripsTo left node ∧ other.StripsTo right otherNode ∧
      node.Matches (Rewraps left right) otherNode := by
  have opened {content other : Structure} (same : Rewraps left right content other) :
      ∃ node otherNode, content.StripsTo left node ∧ other.StripsTo right otherNode ∧
        node.Matches (Rewraps left right) otherNode := by
    obtain ⟨R, rewrapping, related⟩ := same
    obtain ⟨node, otherNode, strips, also, matched⟩ := rewrapping content other related
    exact ⟨node, otherNode, strips, also, matched.mono fun _ _ parts => ⟨R, rewrapping, parts⟩⟩
  constructor
  · exact opened
  · intro matched
    let R (content other : Structure) : Prop :=
      ∃ node otherNode, content.StripsTo left node ∧ other.StripsTo right otherNode ∧
        node.Matches (Rewraps left right) otherNode
    refine ⟨R, fun content other ⟨node, otherNode, strips, also, parts⟩ => ?_, matched⟩
    exact ⟨node, otherNode, strips, also, parts.mono fun _ _ => opened⟩

/-- It makes no difference to put a boundary around a structure or to take it off. -/
theorem rewraps_boundary_iff :
    Rewraps left right content (boundary other) ↔ Rewraps left right content other := by
  simp only [rewraps_iff, stripsTo_boundary_iff]

/-- It makes no difference to defer a structure or to have it at hand. -/
theorem rewraps_lazily_iff :
    Rewraps left right content (lazily other) ↔ Rewraps left right content other := by
  simp only [rewraps_iff, stripsTo_lazily_iff]

/-- The parts of the node that a structure leads to are within the limits if the structure is. -/
theorem WithinLimits.part {part : Place × Structure} (limits : content.WithinLimits scope)
    (leads : content.LeadsTo scope node) (member : part ∈ node.parts) :
    part.2.WithinLimits scope :=
  ⟨fun _ _ unfolds => limits.resolves _ _ (.part leads member unfolds),
    fun _ _ unfolds => limits.shallow _ _ (.part leads member unfolds)⟩

/-- The parts of the node inside the wrappers of a structure are within the limits if the structure
is. -/
theorem StripsTo.withinLimits_part {part : Place × Structure} (strips : content.StripsTo scope node)
    (limits : content.WithinLimits scope) (member : part ∈ node.parts) :
    part.2.WithinLimits scope := by
  induction strips with
  | node leads _ => exact limits.part leads member
  | inside leads _ hypothesis => exact hypothesis (limits.part leads List.mem_cons_self) member

/-- In as many looks as there are boundaries at most, the node inside the wrappers is found. -/
theorem WithinLimits.exists_innerWithin? {looks : Nat} (limits : content.WithinLimits scope)
    (shallow : ¬ content.Nests scope looks) :
    ∃ node, content.innerWithin? scope looks = some node ∧ content.StripsTo scope node := by
  induction looks generalizing content with
  | zero => exact absurd ⟨content, rfl⟩ shallow
  | succ looks hypothesis =>
    rw [innerWithin?]
    cases resolved : content.resolve? scope with
    | none => exact absurd resolved (limits.resolves [] content .here)
    | some node =>
      have leads := leadsTo_of_resolve? resolved
      cases node with
      | boundary inner =>
        have fewer : ¬ inner.Nests scope looks := by
          rintro ⟨below, wraps⟩
          exact shallow ⟨below, inner, resolved, wraps⟩
        obtain ⟨node, found, strips⟩ := hypothesis (limits.part leads List.mem_cons_self) fewer
        exact ⟨node, found, .inside leads strips⟩
      | _ => exact ⟨_, rfl, .node leads rfl⟩

/-- Within the limits the inner node of a structure is the node inside its wrappers. -/
theorem WithinLimits.stripsTo_inner (limits : content.WithinLimits scope) :
    content.StripsTo scope (content.inner scope) := by
  obtain ⟨node, found, strips⟩ :=
    limits.exists_innerWithin? (limits.shallow [] content .here)
  have own : content.inner? scope = some node := found
  rwa [inner_eq_getD, own]

/-- Structures that are the same but for their wrappers are similar within the limits. -/
theorem similarity_of_rewraps : Similarity left right fun content other =>
    Rewraps left right content other ∧ content.WithinLimits left ∧ other.WithinLimits right := by
  rintro content other ⟨same, limits, otherLimits⟩
  obtain ⟨node, otherNode, strips, also, matched⟩ := rewraps_iff.1 same
  rw [limits.stripsTo_inner.unique strips, otherLimits.stripsTo_inner.unique also]
  exact matched.mono_of_mem fun part member another among related =>
    ⟨related, strips.withinLimits_part limits member, also.withinLimits_part otherLimits among⟩

/-- Wherever wrappers are put on or taken off, within the limits the same is kept of every value and
the same rejected, as an object, as an array or as it is; both structures have a wildcard or neither
has, and the default is the same. -/
theorem sanitize_eq_of_rewraps (same : Rewraps left right content other)
    (limits : content.WithinLimits left) (otherLimits : other.WithinLimits right) :
    (∀ value, content.sanitizeShape left value = other.sanitizeShape right value ∧
      content.shapeRejections left value = other.shapeRejections right value) ∧
    (∀ value, content.sanitizeArray left value = other.sanitizeArray right value ∧
      content.arrayRejections left value = other.arrayRejections right value) ∧
    (∀ value, content.conform left value = other.conform right value) ∧
    content.hasWildcard left = other.hasWildcard right ∧
    content.defaultValue left = other.defaultValue right := by
  have similar : Similarity left right _ := similarity_of_rewraps
  have related := And.intro same (And.intro limits otherLimits)
  exact ⟨similar.sanitizeShape_eq related, similar.sanitizeArray_eq related,
    similar.conform_eq related, similar.hasWildcard_eq related, similar.defaultValue_eq related⟩

/-- A structure is within the limits if all that it is made of, part by part, resolves and has an
inner node. -/
theorem withinLimits_of_invariant {P : Structure → Prop} (start : P content)
    (each : ∀ position, P position → ∃ node own, position.resolve? scope = some node ∧
      position.inner? scope = some own ∧ ∀ part ∈ node.parts, P part.2) :
    content.WithinLimits scope := by
  have positions : ∀ path position, Unfolds scope content path position → P position := by
    intro path position unfolds
    induction unfolds with
    | here => exact start
    | part leads member _ hypothesis =>
      obtain ⟨node, own, resolved, -, parts⟩ := each _ start
      obtain rfl := leads.eq (leadsTo_of_resolve? resolved)
      exact hypothesis (parts _ member)
  constructor
  · intro path position unfolds
    obtain ⟨node, own, resolved, -, -⟩ := each position (positions path position unfolds)
    simp [resolved]
  · intro path position unfolds nests
    obtain ⟨node, own, -, found, -⟩ := each position (positions path position unfolds)
    exact nomatch found.symm.trans (innerWithin?_of_nests nests)

/-- If nodes match, and so do in turn the nodes inside the wrappers of their parts, structures with
such nodes inside are the same but for their wrappers. -/
theorem rewraps_of_nodes {P : Node → Node → Prop} {otherNode : Node}
    (each : ∀ node otherNode, P node otherNode → node.Matches (fun part another =>
      ∃ below otherBelow, P below otherBelow ∧ part.StripsTo left below ∧
        another.StripsTo right otherBelow) otherNode)
    (start : P node otherNode) (strips : content.StripsTo left node)
    (also : other.StripsTo right otherNode) : Rewraps left right content other := by
  let R (content other : Structure) : Prop :=
    ∃ node otherNode, P node otherNode ∧ content.StripsTo left node ∧
      other.StripsTo right otherNode
  refine ⟨R, ?_, node, otherNode, start, strips, also⟩
  rintro content other ⟨node, otherNode, known, strips, also⟩
  exact ⟨node, otherNode, strips, also, each node otherNode known⟩

/-- A part of a machine; there is one label. -/
def machinePart : Structure := .deferred (.named 0)

/-- A part, wrapped twice. -/
def wrappedPart : Structure := boundary (lazily machinePart)

/-- The node of a part: it has parts in turn, and a number under every other name. -/
def partNode : Node := .shape [("parts", arrayOf machinePart)] (some (scalar .number)) none

/-- The node of a part with wrappers at every position. -/
def wrappedPartNode : Node :=
  .shape [("parts", boundary (arrayOf wrappedPart))] (some (lazily (boundary (scalar .number))))
    none

/-- The scope of parts. -/
def partScope : Scope := fun _ => .reaches 0 partNode

/-- The scope of parts with wrappers. -/
def wrappedPartScope : Scope := fun _ => .reaches 0 wrappedPartNode

/-- Parts with wrappers and without are the same but for the wrappers. -/
theorem rewraps_wrappedPart : Rewraps partScope wrappedPartScope machinePart wrappedPart := by
  rw [wrappedPart, rewraps_boundary_iff, rewraps_lazily_iff]
  let P (node otherNode : Node) : Prop := (node, otherNode) ∈
    [(partNode, wrappedPartNode), (.arrayOf machinePart none, .arrayOf wrappedPart none),
      (.scalar .number none, .scalar .number none)]
  have strips : machinePart.StripsTo partScope partNode := .node ⟨1, rfl⟩ rfl
  have also : machinePart.StripsTo wrappedPartScope wrappedPartNode := .node ⟨1, rfl⟩ rfl
  have again : wrappedPart.StripsTo wrappedPartScope wrappedPartNode :=
    stripsTo_boundary_iff.2 (stripsTo_lazily_iff.2 also)
  have array : (boundary (arrayOf wrappedPart)).StripsTo wrappedPartScope
      (.arrayOf wrappedPart none) := stripsTo_boundary_iff.2 (.node ⟨0, rfl⟩ rfl)
  have number : (lazily (boundary (scalar .number))).StripsTo wrappedPartScope
      (.scalar .number none) :=
    stripsTo_lazily_iff.2 (stripsTo_boundary_iff.2 (.node ⟨0, rfl⟩ rfl))
  refine rewraps_of_nodes (P := P) (fun node otherNode member => ?_) List.mem_cons_self strips also
  simp only [P, List.mem_cons, Prod.mk.injEq, List.not_mem_nil, or_false] at member
  obtain ⟨rfl, rfl⟩ | ⟨rfl, rfl⟩ | ⟨rfl, rfl⟩ := member
  · have arrays : P (.arrayOf machinePart none) (.arrayOf wrappedPart none) := by simp [P]
    have numbers : P (.scalar .number none) (.scalar .number none) := by simp [P]
    exact .shape none (.cons ⟨rfl, _, _, arrays, .node ⟨0, rfl⟩ rfl, array⟩ .nil)
      (.some ⟨_, _, numbers, .node ⟨0, rfl⟩ rfl, number⟩)
  · exact .arrayOf none ⟨_, _, List.mem_cons_self, strips, again⟩
  · exact .scalar .number none

/-- Parts without wrappers are within the limits. -/
theorem withinLimits_machinePart : machinePart.WithinLimits partScope := by
  refine withinLimits_of_invariant
    (P := (· ∈ [machinePart, arrayOf machinePart, scalar .number])) List.mem_cons_self ?_
  simp only [List.forall_mem_cons]
  refine ⟨⟨_, _, rfl, rfl, ?_⟩, ⟨_, _, rfl, rfl, ?_⟩, ⟨_, _, rfl, rfl, ?_⟩, List.forall_mem_nil _⟩
  all_goals simp [Node.parts, partNode]

/-- Parts with wrappers are within the limits. -/
theorem withinLimits_wrappedPart : wrappedPart.WithinLimits wrappedPartScope := by
  refine withinLimits_of_invariant (P := (· ∈ [wrappedPart, lazily machinePart, machinePart,
    boundary (arrayOf wrappedPart), arrayOf wrappedPart, lazily (boundary (scalar .number)),
    boundary (scalar .number), scalar .number])) List.mem_cons_self ?_
  simp only [List.forall_mem_cons]
  refine ⟨⟨_, _, rfl, rfl, ?_⟩, ⟨_, _, rfl, rfl, ?_⟩, ⟨_, _, rfl, rfl, ?_⟩, ⟨_, _, rfl, rfl, ?_⟩,
    ⟨_, _, rfl, rfl, ?_⟩, ⟨_, _, rfl, rfl, ?_⟩, ⟨_, _, rfl, rfl, ?_⟩, ⟨_, _, rfl, rfl, ?_⟩,
    List.forall_mem_nil _⟩
  all_goals simp [Node.parts, wrappedPartNode, wrappedPart]

/-- Parts keep the same of every value with wrappers at every position, the outermost included, as
without, though they refer to themselves. -/
theorem sanitize_eq_of_rewraps_wrappedPart :
    Rewraps partScope wrappedPartScope machinePart wrappedPart ∧
      machinePart.WithinLimits partScope ∧ wrappedPart.WithinLimits wrappedPartScope ∧
      (∀ value, machinePart.sanitizeShape partScope value =
        wrappedPart.sanitizeShape wrappedPartScope value) ∧
      ∀ value, machinePart.sanitizeArray partScope value =
        wrappedPart.sanitizeArray wrappedPartScope value := by
  obtain ⟨shapes, arrays, -⟩ := sanitize_eq_of_rewraps rewraps_wrappedPart
    withinLimits_machinePart withinLimits_wrappedPart
  exact ⟨rewraps_wrappedPart, withinLimits_machinePart, withinLimits_wrappedPart,
    fun value => (shapes value).1, fun value => (arrays value).1⟩

end Structure

end StateSlice
