import StateSlice.Proofs.Addressing
import StateSlice.Proofs.Conformance

/-!
# Updates of shapes

An update of the leaf of a shape merges what the shape keeps of a payload into the state. What is
kept under a name depends on what the payload has under that name and on nothing else, and what is
read from merged entries is read name by name. As objects whose entries ascend are the same if the
same is read from them at every name, every law of updates is a law of reading at one name.
-/
namespace StateSlice

open Json (Value Entries)

namespace Json

namespace Entries

/-- Merging keeps the names in ascending order. -/
theorem ascending_merge {entries : Entries} (ascending : entries.Ascending) (patch : Entries) :
    (merge entries patch).Ascending := by
  induction patch generalizing entries with
  | nil => exact ascending
  | cons entry patch hypothesis => exact hypothesis (ascending_insert ascending _ _)

/-- What is read from merged entries is read from the patch, or else from the entries. -/
theorem get?_merge {patch : Entries} (ascending : patch.Ascending) (entries : Entries)
    (name : String) :
    get? name (merge entries patch) = (get? name patch <|> get? name entries) := by
  induction patch generalizing entries with
  | nil => rfl
  | cons entry patch hypothesis =>
    obtain ⟨key, value⟩ := entry
    obtain ⟨below, later⟩ := List.pairwise_cons.1 ascending
    have step : merge entries ((key, value) :: patch) =
        merge (insert key value entries) patch := rfl
    rw [step, hypothesis later, get?_insert, get?]
    by_cases named : key = name
    · have once : get? name patch = none := get?_eq_none_of_lt (named ▸ below)
      simp [named, once]
    · simp [named]

end Entries

namespace Value

/-- The entries of an object; any other value has none. -/
def entries (value : Value) : Entries := value.entries?.getD []

/-- The entries of an ordered value ascend. -/
theorem Ordered.ascending {value : Value} (ordered : value.Ordered) :
    value.entries.Ascending := by
  cases value with
  | object entries =>
    rw [Ordered] at ordered
    exact ordered.1
  | _ => exact .nil

/-- The empty object has no entries, and a value that is no object has none either. -/
theorem entries_eq_nil {value : Value} (empty : value = .object [] ∨ value.isObject = false) :
    value.entries = [] := by
  cases value with
  | object entries =>
    rcases empty with same | plain
    · exact Value.object.inj same
    · exact nomatch plain
  | _ => rfl

/-- What is read from a value is read from its entries. -/
theorem get?_eq_get?_entries (name : String) (value : Value) :
    Value.get? name value = Entries.get? name value.entries := by
  cases value <;> rfl

end Value

end Json

namespace Structure

variable {scope : Scope} {content : Structure} {children : List (String × Structure)}
  {wildcard : Option Structure}

/-- What a shape keeps of ascending entries ascends. -/
theorem ascending_conformEntries {entries : Entries} (ascending : entries.Ascending) :
    Entries.Ascending (conformEntries scope children wildcard entries) := by
  rw [conformEntries_eq_filterMap]
  refine List.Pairwise.filterMap _ ?_ ascending
  intro entry other less kept left instead right
  obtain ⟨_, -, rfl⟩ := Option.map_eq_some_iff.1 left
  obtain ⟨_, -, rfl⟩ := Option.map_eq_some_iff.1 right
  exact less

/-- What a shape keeps under a name depends on what stands under the name and on nothing else. -/
theorem get?_conformEntries {entries : Entries} (ascending : entries.Ascending) (name : String) :
    Entries.get? name (conformEntries scope children wildcard entries) =
      (Entries.get? name entries).bind (conformAt scope children wildcard name) := by
  rw [conformEntries_eq_filterMap]
  induction entries with
  | nil => rfl
  | cons entry entries hypothesis =>
    obtain ⟨key, value⟩ := entry
    obtain ⟨below, later⟩ := List.pairwise_cons.1 ascending
    have rest := hypothesis later
    rw [List.filterMap_cons]
    by_cases named : key = name
    · have once : Entries.get? name entries = none := Entries.get?_eq_none_of_lt (named ▸ below)
      rw [once] at rest
      cases kept : conformAt scope children wildcard key value with
      | none => simpa [Entries.get?, named, kept, named ▸ kept] using rest
      | some inside => simp [Entries.get?, named, named ▸ kept]
    · cases kept : conformAt scope children wildcard key value <;>
        simpa [Entries.get?, named, kept] using rest

/-- A shape keeps nothing of a value under a name: the name is not declared, or what is declared for
it is a scalar that rejects the value. -/
def Rejects (scope : Scope) (content : Structure) (name : String) (value : Value) : Prop :=
  ∀ child, content.child? scope name (content.hasWildcard scope) = some child →
    ∃ validator, (child.inner scope).ownValidator? = some validator ∧
      validator.accepts value = false

/-- What a shape declares for a name is found if its wildcard is allowed. -/
theorem child?_hasWildcard {explicit : Option Value}
    (shaped : content.inner scope = .shape children wildcard explicit) (name : String) :
    content.child? scope name (content.hasWildcard scope) =
      Shape.lookup children wildcard name true := by
  cases wildcard <;> simp [child?, hasWildcard, shaped, Shape.lookup]

/-- Where a shape rejects a value it keeps none. -/
theorem Rejects.conformAt_eq_none {explicit : Option Value} {name : String} {value : Value}
    (rejects : content.Rejects scope name value)
    (shaped : content.inner scope = .shape children wildcard explicit) :
    conformAt scope children wildcard name value = none := by
  rw [Rejects, child?_hasWildcard shaped] at rejects
  rw [conformAt]
  cases declared : Shape.lookup children wildcard name true with
  | none => rfl
  | some child =>
    obtain ⟨validator, owned, rejected⟩ := rejects child declared
    rw [Option.bind_some, conform_of_validator owned, rejected, Node.empty?_of_validator owned]
    rfl

end Structure

namespace Leaf

variable {leaf : Leaf} {children : List (String × Structure)} {wildcard : Option Structure}
  {explicit : Option Value}

/-- An update merges what the shape keeps of the payload into the state. -/
theorem update_eq (shaped : leaf.content.inner leaf.scope = .shape children wildcard explicit)
    (state payload : Value) :
    leaf.update state payload = .object (Entries.merge state.entries
      (Structure.conformEntries leaf.scope children wildcard payload.entries)) := by
  rw [update, Structure.sanitizeShape_of_shape shaped]
  rfl

/-- What is read at a name after an update is what is kept of the payload there, or else what was
there. -/
theorem get?_update (shaped : leaf.content.inner leaf.scope = .shape children wildcard explicit)
    {payload : Value} (ascending : payload.entries.Ascending) (state : Value) (name : String) :
    Value.get? name (leaf.update state payload) =
      ((Value.get? name payload).bind
          (Structure.conformAt leaf.scope children wildcard name) <|>
        Value.get? name state) := by
  rw [update_eq shaped, Value.get?,
    Entries.get?_merge (Structure.ascending_conformEntries ascending),
    Structure.get?_conformEntries ascending, Value.get?_eq_get?_entries name payload,
    Value.get?_eq_get?_entries name state]

/-- What is read at a name after an update is what the sanitized payload has there, or else what was
there. -/
theorem get?_update_sanitized
    (shaped : leaf.content.inner leaf.scope = .shape children wildcard explicit)
    {payload : Value} (ascending : payload.entries.Ascending) (state : Value) (name : String) :
    Value.get? name (leaf.update state payload) =
      (Value.get? name (leaf.content.sanitizeShape leaf.scope payload) <|>
        Value.get? name state) := by
  have sanitized : Value.get? name (leaf.content.sanitizeShape leaf.scope payload) =
      (Value.get? name payload).bind
        (Structure.conformAt leaf.scope children wildcard name) := by
    rw [Structure.sanitizeShape_of_shape shaped, Value.get?_eq_get?_entries name payload]
    exact Structure.get?_conformEntries ascending name
  rw [get?_update shaped ascending, sanitized]

/-- Where the payload has nothing, or a value that the shape rejects, an update changes nothing. -/
theorem get?_update_of_rejects
    (shaped : leaf.content.inner leaf.scope = .shape children wildcard explicit)
    {payload : Value} (ascending : payload.entries.Ascending) {name : String}
    (rejects : ∀ value, Value.get? name payload = some value →
      leaf.content.Rejects leaf.scope name value) (state : Value) :
    Value.get? name (leaf.update state payload) = Value.get? name state := by
  rw [get?_update shaped ascending]
  cases given : Value.get? name payload with
  | none => rfl
  | some value =>
    rw [Option.bind_some, (rejects value given).conformAt_eq_none shaped]
    rfl

/-- After an update every name has a value that had one before. -/
theorem isSome_get?_update
    (shaped : leaf.content.inner leaf.scope = .shape children wildcard explicit)
    {state payload : Value} (ascending : payload.entries.Ascending) {name : String}
    (has : (Value.get? name state).isSome) :
    (Value.get? name (leaf.update state payload)).isSome := by
  rw [get?_update shaped ascending]
  cases (Value.get? name payload).bind
    (Structure.conformAt leaf.scope children wildcard name) <;> simp [has]

/-- An update keeps the entries of the state in ascending order. -/
theorem ascending_update {state : Value} (ascending : state.entries.Ascending) (payload : Value) :
    (leaf.update state payload).entries.Ascending :=
  Entries.ascending_merge ascending _

/-- Two updates come to the same state if the same is read from both at every name. -/
theorem update_eq_of_get?_eq {state other payload instead : Value}
    (ascending : state.entries.Ascending) (otherAscending : other.entries.Ascending)
    (same : ∀ name, Value.get? name (leaf.update state payload) =
      Value.get? name (leaf.update other instead)) :
    leaf.update state payload = leaf.update other instead :=
  congrArg Value.object (Entries.eq_of_get?_eq (Entries.ascending_merge ascending _)
    (Entries.ascending_merge otherAscending _) same)

/-- An update that is repeated changes nothing more. -/
theorem update_update (shaped : leaf.content.inner leaf.scope = .shape children wildcard explicit)
    {state payload : Value} (ascending : state.entries.Ascending)
    (payloadAscending : payload.entries.Ascending) :
    leaf.update (leaf.update state payload) payload = leaf.update state payload := by
  refine update_eq_of_get?_eq (ascending_update ascending payload) ascending fun name => ?_
  rw [get?_update shaped payloadAscending, get?_update shaped payloadAscending]
  cases (Value.get? name payload).bind (Structure.conformAt leaf.scope children wildcard name) <;>
    rfl

/-- Where there are no entries, an update puts in what the shape keeps of the payload. -/
theorem update_of_entries_eq_nil
    (shaped : leaf.content.inner leaf.scope = .shape children wildcard explicit)
    {state payload : Value} (ascending : payload.entries.Ascending) (empty : state.entries = []) :
    leaf.update state payload = leaf.content.sanitizeShape leaf.scope payload := by
  have kept : (Structure.conformEntries leaf.scope children wildcard payload.entries).Pairwise
      (·.1 < ·.1) := Structure.ascending_conformEntries ascending
  rw [update_eq shaped, Structure.sanitizeShape_of_shape shaped, empty]
  refine congrArg Value.object (Entries.eq_of_get?_eq (Entries.ascending_merge .nil _) kept ?_)
  intro name
  rw [Entries.get?_merge kept]
  simp [Value.entries]

/-- Updates with payloads that have no name in common can be exchanged. -/
theorem update_comm (shaped : leaf.content.inner leaf.scope = .shape children wildcard explicit)
    {state payload other : Value} (ascending : state.entries.Ascending)
    (payloadAscending : payload.entries.Ascending) (otherAscending : other.entries.Ascending)
    (disjoint : ∀ name, Value.get? name payload = none ∨ Value.get? name other = none) :
    leaf.update (leaf.update state payload) other =
      leaf.update (leaf.update state other) payload := by
  refine update_eq_of_get?_eq (ascending_update ascending payload)
    (ascending_update ascending other) fun name => ?_
  simp only [get?_update shaped payloadAscending, get?_update shaped otherAscending]
  rcases disjoint name with absent | absent <;> simp [absent]

/-- An update with all entries of two payloads that have no name in common does what updates with
the payloads do one after the other. -/
theorem update_union (shaped : leaf.content.inner leaf.scope = .shape children wildcard explicit)
    {state payload other union : Value} (ascending : state.entries.Ascending)
    (payloadAscending : payload.entries.Ascending) (otherAscending : other.entries.Ascending)
    (unionAscending : union.entries.Ascending)
    (disjoint : ∀ name, Value.get? name payload = none ∨ Value.get? name other = none)
    (joined : ∀ name, Value.get? name union =
      (Value.get? name payload <|> Value.get? name other)) :
    leaf.update state union = leaf.update (leaf.update state payload) other := by
  refine update_eq_of_get?_eq ascending (ascending_update ascending payload) fun name => ?_
  simp only [get?_update shaped payloadAscending, get?_update shaped otherAscending,
    get?_update shaped unionAscending, joined]
  rcases disjoint name with absent | absent <;> simp [absent]

/-- The state of a leaf after the action of an operation with a payload is dispatched to it. -/
def dispatch (leaf : Leaf) (operation : Operation) (state : Option Value) (payload : Value) :
    Value :=
  leaf.reducer.reduce state ((Creator.of operation leaf.location).create payload)

/-- The leaf of a shape has the operations of shapes. -/
theorem operations_of_shape (holds : leaf.container = .shape) :
    leaf.actions.operations = [.replace, .update, .reset] := by
  rw [actions, holds, Container.kind]
  rfl

/-- The update action of the leaf of a shape merges its payload into the state. -/
theorem dispatch_update (holds : leaf.container = .shape) (state : Option Value)
    (payload : Value) :
    leaf.dispatch .update state payload = leaf.update (state.getD leaf.initial) payload := by
  have has : Operation.update ∈ leaf.actions.operations := by
    simp [operations_of_shape holds]
  rw [dispatch, reduce_of_mem_operations has rfl]
  rfl

/-- The replace action of the leaf of a shape sanitizes its payload. -/
theorem dispatch_replace (holds : leaf.container = .shape) (state : Option Value)
    (payload : Value) :
    leaf.dispatch .replace state payload = leaf.content.sanitizeShape leaf.scope payload := by
  have has : Operation.replace ∈ leaf.actions.operations := by
    simp [operations_of_shape holds]
  rw [dispatch, reduce_of_mem_operations has rfl, perform, replace, holds]
  rfl

/-- The leaf of a shape holds an object of the shape. -/
theorem of_shape {scope : Scope} {content : Structure} {location : String}
    (made : Leaf.of scope content location = .ok leaf)
    (node : content.inner scope = .shape children wildcard explicit) :
    scope = leaf.scope ∧ content = leaf.content ∧ leaf.container = .shape := by
  obtain ⟨container, isFor, known⟩ := Leaf.of_eq_ok scope content location
  obtain rfl := Except.ok.inj (known.symm.trans made)
  rw [node] at isFor
  cases isFor with
  | value owned => exact nomatch owned
  | shape shaped => exact ⟨rfl, rfl, rfl⟩
  | array listed => exact nomatch listed

/-- The laws of updates, for the leaf of a shape, whatever its state and the payload are. An update
comes to an object; at each name there is what sanitizing the payload keeps there, or else what the
state has. So no name is lost, and where the payload has nothing, or a value that is rejected or
not declared, nothing changes. A second update with the payload changes nothing more; on no entries
an update is a replacement; and updates with objects that have no name in common can be exchanged,
and do what one update with all their entries does. -/
theorem update_laws {scope : Scope} {content : Structure} {location : String}
    (made : Leaf.of scope content location = .ok leaf) (shape : (content.inner scope).tag = .shape)
    {state : Option Value} {payload : Value} (ordered : (state.getD leaf.initial).Ordered)
    (payloadOrdered : payload.Ordered) :
    let current := state.getD leaf.initial
    let next := leaf.dispatch .update state payload
    leaf.actions.creator? .update = some (.of .update leaf.location) ∧
    next.isObject = true ∧
    (∀ name, Value.get? name next =
      (Value.get? name (content.sanitizeShape scope payload) <|> Value.get? name current)) ∧
    (∀ name, (Value.get? name current).isSome → (Value.get? name next).isSome) ∧
    (∀ name, (∀ value, Value.get? name payload = some value → content.Rejects scope name value) →
      Value.get? name next = Value.get? name current) ∧
    leaf.dispatch .update (some next) payload = next ∧
    (current = .object [] ∨ current.isObject = false →
      next = leaf.dispatch .replace state payload) ∧
    ∀ other : Value, other.Ordered →
      (∀ name, Value.get? name payload = none ∨ Value.get? name other = none) →
      let after := leaf.dispatch .update (some next) other
      after = leaf.dispatch .update (some (leaf.dispatch .update state other)) payload ∧
      ∀ union : Value, union.Ordered →
        (∀ name, Value.get? name union = (Value.get? name payload <|> Value.get? name other)) →
        leaf.dispatch .update state union = after := by
  intro current next
  obtain ⟨children, wildcard, explicit, node⟩ := Node.eq_shape_of_tag shape
  obtain ⟨rfl, rfl, holds⟩ := of_shape made node
  have ascending := ordered.ascending
  have payloadAscending := payloadOrdered.ascending
  have comes : next = leaf.update current payload := dispatch_update holds state payload
  refine ⟨?_, ?_, fun name => ?_, fun name has => ?_, fun name rejects => ?_, ?_, fun empty => ?_,
    fun other otherOrdered disjoint => ⟨?_, fun union unionOrdered joined => ?_⟩⟩
  · refine LeafActions.creator?_eq_some_iff.2 ⟨?_, rfl⟩
    simp [LeafActions.supports, operations_of_shape holds]
  · rw [comes, update_eq node]
    rfl
  · rw [comes, get?_update_sanitized node payloadAscending]
  · rw [comes]
    exact isSome_get?_update node payloadAscending has
  · rw [comes, get?_update_of_rejects node payloadAscending rejects]
  · rw [dispatch_update holds, Option.getD_some, comes]
    exact update_update node ascending payloadAscending
  · rw [comes, dispatch_replace holds]
    exact update_of_entries_eq_nil node payloadAscending (Value.entries_eq_nil empty)
  · simp only [dispatch_update holds, Option.getD_some, comes]
    exact update_comm node ascending payloadAscending otherOrdered.ascending disjoint
  · simp only [dispatch_update holds, Option.getD_some, comes]
    exact update_union node ascending payloadAscending otherOrdered.ascending
      unionOrdered.ascending disjoint joined

/-- A shape with a text named `name`, and a number under every other name. -/
def scores : Structure :=
  .shape [(.named "name", .scalar .string), (.wildcard, .scalar .number)]

/-- The leaf of the scores. -/
def scoresLeaf : Leaf := ⟨fun _ => .endless, scores, .shape, .object [], "scores"⟩

/-- A text for the score of Alice is rejected and her score stays; the score of Bob and then the
name are put in, in one order or the other, or both by one update. -/
theorem update_laws_scores :
    let one : Value := .number (.int 1)
    let state : Value := .object [("alice", one), ("name", .string "team")]
    let payload : Value := .object [("alice", .string "three"), ("bob", one)]
    let other : Value := .object [("name", .string "club")]
    let union : Value :=
      .object [("alice", .string "three"), ("bob", one), ("name", .string "club")]
    let next := scoresLeaf.dispatch .update (some state) payload
    let after : Value := .object [("alice", one), ("bob", one), ("name", .string "club")]
    Leaf.of (fun _ => .endless) scores "scores" = .ok scoresLeaf ∧
      (scores.inner fun _ => .endless).tag = .shape ∧
      (state.Ordered ∧ payload.Ordered ∧ other.Ordered ∧ union.Ordered) ∧
      Value.get? "alice" next = some one ∧
      scoresLeaf.dispatch .update (some next) payload = next ∧
      scoresLeaf.dispatch .update (some next) other = after ∧
      scoresLeaf.dispatch .update (some state) union = after := by
  intro one state payload other union next after
  have made : Leaf.of (fun _ => .endless) scores "scores" = .ok scoresLeaf := rfl
  have shape : (scores.inner fun _ => .endless).tag = .shape := rfl
  have ordered : state.Ordered ∧ payload.Ordered ∧ other.Ordered ∧ union.Ordered := by
    simp only [state, payload, other, union, one, Value.Ordered, Value.OrderedEntries,
      Entries.Ascending]
    decide
  obtain ⟨stateOrdered, payloadOrdered, otherOrdered, unionOrdered⟩ := ordered
  have currentOrdered : ((some state).getD scoresLeaf.initial).Ordered := stateOrdered
  obtain ⟨-, -, -, -, refused, repeated, -, joined⟩ :=
    update_laws made shape currentOrdered payloadOrdered
  have disjoint : ∀ name, Value.get? name payload = none ∨ Value.get? name other = none := by
    intro name
    by_cases named : name = "name"
    · exact .inl (named ▸ rfl)
    · exact .inr (if_neg (Ne.symm named))
  have whole : ∀ name, Value.get? name union =
      (Value.get? name payload <|> Value.get? name other) := by
    intro name
    simp only [union, payload, other, Value.get?, Entries.get?]
    split
    · rfl
    · split <;> rfl
  obtain ⟨-, both⟩ := joined other otherOrdered disjoint
  have comes : scoresLeaf.dispatch .update (some next) other = after := by decide
  refine ⟨made, shape, ⟨stateOrdered, payloadOrdered, otherOrdered, unionOrdered⟩, ?_, repeated,
    comes, (both union unionOrdered whole).trans comes⟩
  refine refused "alice" fun value given child declared => ⟨.ofKind .number, ?_, ?_⟩
  · obtain rfl : .scalar .number = child := Option.some.inj declared
    rfl
  · obtain rfl : .string "three" = value := Option.some.inj given
    rfl

end Leaf

end StateSlice
