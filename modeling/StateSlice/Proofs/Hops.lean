import StateSlice.Proofs.Expansion
import StateSlice.Proofs.InnerNodes
import StateSlice.Proofs.Meanings

/-!
# Limits of following

A structure is resolved by evaluating deferrals one at a time, for a bounded number of rounds. A
round looks at what is at hand before it evaluates it, and what the last round has evaluated is not
looked at; so a node is found after as many hops as there are rounds but one. Boundaries are looked
through in the same way, and each of them is resolved with all of its rounds. A node that is further
away is not found, and the placeholder stands in for it, by however little the limit is missed.
-/
namespace StateSlice

section

variable {scope : Scope} (meaning : scope.Meaning)

/-- What a deferral produces when it is evaluated once. With another default it resolves what would
be produced and declares the default for the node. -/
def Deferral.produce : Deferral → Structure
  | .named label | .fresh label => meaning.content label
  | .held content => content
  | .overridden deferral value =>
    .ready (((deferral.produce).resolve scope).withDefault value)

/-- Following a deferral leads where following what it produces leads. -/
theorem Deferral.landing_produce (deferral : Deferral) :
    (deferral.produce meaning).landing scope = deferral.landing scope := by
  induction deferral using Deferral.induct with
  | named label | fresh label => exact meaning.landing_content label
  | ready | held => rfl
  | overridden deferral value hypothesis =>
    rw [produce, Structure.landing, Structure.resolve, Structure.resolve?, hypothesis]
    rfl

/-- Every scope has a meaning: a label stands for a node that is deferred as often as there are hops
to it, or for itself if it is endless. -/
instance (scope : Scope) : Inhabited scope.Meaning where
  default := {
    content := fun label =>
      match scope label with
      | .endless => .deferred (.named label)
      | .reaches hops node => .delayed hops node
    landing_content := by
      intro label
      cases leads : scope label with
      | endless => simp [Structure.landing, Deferral.landing, leads, Landing.later]
      | reaches hops node => exact Structure.landing_delayed scope hops node }

namespace Structure

variable {content : Structure} {node : Node} {hops boundaries : Nat}

/-- The node of a structure, if it is at hand after fewer evaluations than there are rounds. -/
def evaluate : (rounds : Nat) → Structure → Option Node
  | 0, _ => none
  | _ + 1, .ready node => some node
  | rounds + 1, .deferred deferral => evaluate rounds (deferral.produce meaning)

/-- A structure is a number of deferrals around a node, each of which produces the next one, and the
last one the node. -/
inductive IsChain : Nat → Structure → Node → Prop
  /-- No deferral is around a node at hand. -/
  | ready {node : Node} : IsChain 0 (.ready node) node
  /-- A deferral is around what it produces. -/
  | deferred {hops : Nat} {deferral : Deferral} {node : Node} :
      IsChain hops (deferral.produce meaning) node → IsChain (hops + 1) (.deferred deferral) node

variable {meaning}

/-- A structure leads to a node after as many hops as there are deferrals around the node. -/
theorem isChain_iff :
    content.IsChain meaning hops node ↔ content.landing scope = .reaches hops node := by
  constructor
  · intro chain
    induction chain with
    | ready => rfl
    | deferred _ hypothesis =>
      rw [landing, ← Deferral.landing_produce meaning, hypothesis]
      rfl
  · intro leads
    induction hops generalizing content with
    | zero =>
      cases content with
      | ready own =>
        obtain ⟨-, rfl⟩ := Landing.reaches.inj leads
        exact .ready
      | deferred deferral =>
        rw [landing] at leads
        cases further : deferral.landing scope <;> simp [further, Landing.later] at leads
    | succ hops hypothesis =>
      cases content with
      | ready own => exact nomatch (Landing.reaches.inj leads).1
      | deferred deferral =>
        rw [landing] at leads
        refine .deferred (hypothesis ?_)
        rw [Deferral.landing_produce]
        cases further : deferral.landing scope with
        | endless => simp [further, Landing.later] at leads
        | reaches hops own => simpa [further, Landing.later] using leads

/-- The node inside a chain is found if there are more rounds than deferrals. -/
theorem IsChain.evaluate_eq (chain : content.IsChain meaning hops node) (rounds : Nat) :
    content.evaluate meaning rounds = if hops < rounds then some node else none := by
  induction chain generalizing rounds with
  | ready => cases rounds <;> simp [evaluate]
  | deferred _ hypothesis =>
    cases rounds with
    | zero => rfl
    | succ rounds => simp [evaluate, hypothesis]

/-- Where deferrals have no end nothing is found. -/
theorem evaluate_of_endless (endless : content.landing scope = .endless) (rounds : Nat) :
    content.evaluate meaning rounds = none := by
  induction rounds generalizing content with
  | zero => rfl
  | succ rounds hypothesis =>
    cases content with
    | ready node => exact nomatch endless
    | deferred deferral =>
      refine hypothesis ?_
      rw [landing] at endless
      rw [Deferral.landing_produce]
      cases further : deferral.landing scope with
      | endless => rfl
      | reaches hops node => simp [further, Landing.later] at endless

/-- A structure resolves to what is found in one round more than hops are followed. -/
theorem resolve?_eq_evaluate (meaning : scope.Meaning) (content : Structure) :
    content.resolve? scope = content.evaluate meaning (maxHops + 1) := by
  cases leads : content.landing scope with
  | endless => rw [evaluate_of_endless leads, resolve?, leads, Landing.node?]
  | reaches hops node =>
    rw [(isChain_iff.2 leads).evaluate_eq, resolve?, leads, Landing.node?]
    simp only [Nat.lt_succ_iff]

/-- The node inside a chain is what the chain resolves to if there are no more deferrals than are
followed. -/
theorem IsChain.resolve?_eq (chain : content.IsChain meaning hops node) :
    content.resolve? scope = if hops ≤ maxHops then some node else none := by
  rw [resolve?_eq_evaluate meaning, chain.evaluate_eq]
  simp only [Nat.lt_succ_iff]

variable (meaning)

/-- A structure is a number of boundaries around a node that is none, each of them and the node
inside a chain of deferrals that can be followed. -/
inductive IsWrapped : Nat → Structure → Node → Prop
  /-- No boundary is around the node. -/
  | node {hops : Nat} {content : Structure} {node : Node} :
      content.IsChain meaning hops node → hops ≤ maxHops → node.isBoundary = false →
      IsWrapped 0 content node
  /-- A boundary is around what it encloses. -/
  | boundary {hops boundaries : Nat} {content inner : Structure} {node : Node} :
      content.IsChain meaning hops (.boundary inner) → hops ≤ maxHops →
      IsWrapped boundaries inner node → IsWrapped (boundaries + 1) content node

variable {meaning}

/-- A node that is wrapped in boundaries is enclosed in as many. -/
theorem IsWrapped.encloses (wrapped : content.IsWrapped meaning boundaries node) :
    content.Encloses scope boundaries node := by
  induction wrapped with
  | node chain few plain =>
    exact encloses_zero_iff.2 ⟨by rw [chain.resolve?_eq, if_pos few], plain⟩
  | boundary chain few _ hypothesis =>
    exact encloses_succ_iff.2 ⟨_, by rw [chain.resolve?_eq, if_pos few], hypothesis⟩

/-- A node that is wrapped in no more boundaries than are looked through is the inner node; in place
of one that is wrapped in more there is the placeholder. -/
theorem IsWrapped.inner_eq (wrapped : content.IsWrapped meaning boundaries node) :
    content.inner scope = if boundaries ≤ maxHops then node else .placeholder := by
  have ⟨below, wraps, own⟩ := wrapped.encloses
  by_cases few : boundaries ≤ maxHops
  · rw [if_pos few, inner_of_encloses few ⟨below, wraps, own⟩]
  · have nests : content.Nests scope (maxHops + 1) := Nests.of_le ⟨below, wraps⟩ (by omega)
    rw [if_neg few, inner_of_nests nests]

/-- Resolving evaluates one deferral at a time, and gives up exactly at its limits: the node in a
chain of deferrals is found if and only if there are no more of them than the limit, and else
nothing is found; a node in boundaries, each of them and the node inside a chain that can be
followed, is the inner node if there are no more boundaries than the limit, and else the placeholder
is, so that another node is the inner node if and only if the limit is kept. Where the placeholder
is the inner node every value is rejected. The inner node is no boundary, whatever the structure
is. -/
theorem resolves_within_limits {scope : Scope} (meaning : scope.Meaning) :
    (∀ content : Structure,
      content.resolve? scope = content.evaluate meaning (maxHops + 1)) ∧
    (∀ hops content node, IsChain meaning hops content node →
      (content.resolve? scope = some node ↔ hops ≤ maxHops) ∧
      (content.resolve? scope = none ↔ maxHops < hops)) ∧
    (∀ boundaries content node, IsWrapped meaning boundaries content node →
      content.inner scope = (if boundaries ≤ maxHops then node else .placeholder) ∧
      (node ≠ .placeholder → (content.inner scope = node ↔ boundaries ≤ maxHops))) ∧
    (∀ content : Structure, content.inner scope = .placeholder →
      ∀ value, content.conform scope value = none) ∧
    ∀ content : Structure, (content.inner scope).isBoundary = false := by
  refine ⟨resolve?_eq_evaluate meaning, fun hops content node chain => ?_,
    fun boundaries content node wrapped => ⟨wrapped.inner_eq, fun other => ?_⟩,
    fun content rejecting => conform_of_rejecting rejecting, isBoundary_inner scope⟩
  · rw [chain.resolve?_eq]
    by_cases few : hops ≤ maxHops
    · simp [few]
    · simp [few, Nat.lt_of_not_le few]
  · rw [wrapped.inner_eq]
    by_cases few : boundaries ≤ maxHops
    · simp [few]
    · simp [few, other.symm]

/-- One definition: a number that is deferred once less than can be followed. -/
def farDefinitions : List Structure := [delayed 63 (.scalar .number none)]

/-- The number by its label, which is one deferral more. -/
def farNumber : Structure := .deferred (.named 0)

/-- The number in some boundaries, each of them deferred. -/
def farNested : (boundaries : Nat) → Structure
  | 0 => farNumber
  | boundaries + 1 => lazily (.boundary (farNested boundaries))

/-- The number is in a chain of as many deferrals as can be followed. -/
theorem isChain_farNumber : farNumber.IsChain (Scope.Meaning.ofDefinitions farDefinitions) maxHops
    (.scalar .number none) :=
  .deferred (isChain_iff.2 (landing_delayed _ 63 _))

/-- The number is wrapped in the boundaries. -/
theorem isWrapped_farNested (boundaries : Nat) : (farNested boundaries).IsWrapped
    (Scope.Meaning.ofDefinitions farDefinitions) boundaries (.scalar .number none) := by
  induction boundaries with
  | zero => exact .node isChain_farNumber (Nat.le_refl _) rfl
  | succ boundaries hypothesis => exact .boundary (.deferred .ready) (by decide) hypothesis

/-- One deferral more, and one boundary more, and the number is not found, so that numbers are
rejected. -/
theorem resolves_within_limits_farNumber :
    let scope := Scope.ofDefinitions farDefinitions
    let meaning := Scope.Meaning.ofDefinitions farDefinitions
    let number : Node := .scalar .number none
    farNumber.IsChain meaning maxHops number ∧ farNumber.resolve? scope = some number ∧
      (lazily farNumber).IsChain meaning (maxHops + 1) number ∧
      (lazily farNumber).resolve? scope = none ∧
      (farNested maxHops).IsWrapped meaning maxHops number ∧
      (farNested maxHops).inner scope = number ∧
      (farNested (maxHops + 1)).IsWrapped meaning (maxHops + 1) number ∧
      (farNested (maxHops + 1)).inner scope = .placeholder ∧
      (farNested (maxHops + 1)).conform scope (.number (.int 0)) = none := by
  intro scope meaning number
  obtain ⟨-, chains, wrapped, rejects, -⟩ := resolves_within_limits meaning
  have further : (lazily farNumber).IsChain meaning (maxHops + 1) number :=
    .deferred isChain_farNumber
  have hidden : (farNested (maxHops + 1)).inner scope = .placeholder :=
    (wrapped _ _ _ (isWrapped_farNested (maxHops + 1))).1
  exact ⟨isChain_farNumber, (chains _ _ _ isChain_farNumber).1.2 (Nat.le_refl _),
    further, (chains _ _ _ further).2.2 (Nat.lt_succ_self _),
    isWrapped_farNested _, (wrapped _ _ _ (isWrapped_farNested maxHops)).1,
    isWrapped_farNested _, hidden, rejects _ hidden _⟩

end Structure

end

end StateSlice
