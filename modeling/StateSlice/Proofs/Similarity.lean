import Mathlib.Data.List.Forall2
import StateSlice.Proofs.Compilation
import StateSlice.Proofs.Walks

/-!
# Similar structures

Two structures that are written differently do the same if their inner nodes match: if the nodes
differ only in their parts, and the parts are again such structures. A relation of structures with
this property is a similarity. Whatever is done with values by related structures, at whatever depth
of the values, is the same: they keep the same, reject the same, and have the same default and
leaves with the same reducer. The structures may refer to themselves, since it is the value that is
taken apart.
-/
namespace StateSlice

open Json (Value Entries)

/-- If items are related one by one, and a test has the same result for related items, then it holds
of some item in both lists or in none. -/
theorem any_eq_of_forall₂ {α β : Type} {R : α → β → Prop} {f : α → Bool} {g : β → Bool}
    {lefts : List α} {rights : List β} (each : List.Forall₂ R lefts rights)
    (same : ∀ left right, R left right → f left = g right) : lefts.any f = rights.any g := by
  induction each with
  | nil => rfl
  | cons first _ hypothesis => rw [List.any_cons, List.any_cons, same _ _ first, hypothesis]

/-- If items are related one by one, and related items are taken to the same list, then both lists
are. -/
theorem flatMap_eq_of_forall₂ {α β γ : Type} {R : α → β → Prop} {f : α → List γ} {g : β → List γ}
    {lefts : List α} {rights : List β} (each : List.Forall₂ R lefts rights)
    (same : ∀ left right, R left right → f left = g right) :
    lefts.flatMap f = rights.flatMap g := by
  induction each with
  | nil => rfl
  | cons first _ hypothesis =>
    rw [List.flatMap_cons, List.flatMap_cons, same _ _ first, hypothesis]

namespace Node

variable {R S : Structure → Structure → Prop}

/-- Two nodes differ only in their parts, and the parts are related. -/
inductive Matches (R : Structure → Structure → Prop) : Node → Node → Prop
  /-- Scalars of a kind with the same default. -/
  | scalar (kind : Kind) (explicit : Option Value) :
      Matches R (.scalar kind explicit) (.scalar kind explicit)
  /-- Custom nodes with the same check, message and default. -/
  | custom (check : Value → Bool) (message : String) (explicit : Option Value) :
      Matches R (.custom check message explicit) (.custom check message explicit)
  /-- Shapes with the same names in the same order and the same default. -/
  | shape {children others : List (String × Structure)} {wildcard other : Option Structure}
      (explicit : Option Value) :
      List.Forall₂ (fun child other => child.1 = other.1 ∧ R child.2 other.2) children others →
      Option.Rel R wildcard other →
      Matches R (.shape children wildcard explicit) (.shape others other explicit)
  /-- Arrays with the same default. -/
  | arrayOf {element other : Structure} (explicit : Option Value) :
      R element other → Matches R (.arrayOf element explicit) (.arrayOf other explicit)
  /-- Boundaries. -/
  | boundary {inner other : Structure} :
      R inner other → Matches R (.boundary inner) (.boundary other)

namespace Matches

variable {node other : Node}

/-- What is found of a relation is found of another that the parts are related by. -/
theorem mono_of_mem (matched : node.Matches R other)
    (parts : ∀ part ∈ node.parts, ∀ another ∈ other.parts, R part.2 another.2 →
      S part.2 another.2) : node.Matches S other := by
  cases matched with
  | scalar kind explicit => exact .scalar kind explicit
  | custom check message explicit => exact .custom check message explicit
  | shape explicit each wild =>
    refine .shape explicit ?_ ?_
    · obtain ⟨sameLength, pairs⟩ := List.forall₂_iff_zip.1 each
      refine List.forall₂_iff_zip.2 ⟨sameLength, fun zipped => ⟨(pairs zipped).1, ?_⟩⟩
      obtain ⟨first, second⟩ := List.of_mem_zip zipped
      exact parts _ (mem_parts_of_mem_children first) _ (mem_parts_of_mem_children second)
        (pairs zipped).2
    · cases wild with
      | some related => exact .some (parts (.wildcard, _) (by simp [Node.parts]) (.wildcard, _)
          (by simp [Node.parts]) related)
      | none => exact .none
  | arrayOf explicit related =>
    exact .arrayOf explicit (parts _ List.mem_cons_self _ List.mem_cons_self related)
  | boundary related => exact .boundary (parts _ List.mem_cons_self _ List.mem_cons_self related)

/-- What is found of a relation is found of a weaker one. -/
theorem mono (matched : node.Matches R other) (weaker : ∀ left right, R left right → S left right) :
    node.Matches S other :=
  matched.mono_of_mem fun part _ another _ => weaker part.2 another.2

/-- Matching nodes are both boundaries or both not. -/
theorem isBoundary_eq (matched : node.Matches R other) : node.isBoundary = other.isBoundary := by
  cases matched <;> rfl

/-- Matching nodes have the same tag. -/
theorem tag_eq (matched : node.Matches R other) : node.tag = other.tag := by
  cases matched <;> rfl

/-- Matching nodes declare the same default. -/
theorem explicit?_eq (matched : node.Matches R other) : node.explicit? = other.explicit? := by
  cases matched <;> rfl

/-- Matching nodes have the same default of their own. -/
theorem ownDefault_eq (matched : node.Matches R other) : node.ownDefault = other.ownDefault := by
  cases matched <;> rfl

/-- Matching nodes have the same empty container. -/
theorem empty?_eq (matched : node.Matches R other) : node.empty? = other.empty? := by
  cases matched <;> rfl

/-- A leaf of a node has the container for every matching node. -/
theorem isFor {container : Container} (matched : node.Matches R other)
    (isFor : container.IsFor node) : container.IsFor other := by
  cases isFor with
  | value owned =>
    cases matched with
    | scalar kind explicit => exact .value owned
    | custom check message explicit => exact .value owned
    | _ => simp [ownValidator?] at owned
  | shape shaped =>
    subst shaped
    cases matched
    exact .shape rfl
  | array listed =>
    subst listed
    cases matched
    exact .array rfl

/-- Matching nodes have the same names of children, in order, and related children. -/
theorem children (matched : node.Matches R other) :
    List.Forall₂ (fun child other => child.1 = other.1 ∧ R child.2 other.2)
      node.children other.children := by
  cases matched with
  | shape explicit each wild => exact each
  | _ => exact .nil

/-- Matching nodes have the same steps to parts, in order, and related parts. -/
theorem parts (matched : node.Matches R other) :
    List.Forall₂ (fun part other => part.1 = other.1 ∧ R part.2 other.2)
      node.parts other.parts := by
  cases matched with
  | scalar kind explicit => exact .nil
  | custom check message explicit => exact .nil
  | shape explicit each wild =>
    refine List.rel_append ?_ ?_
    · refine List.forall₂_map_left_iff.2 (List.forall₂_map_right_iff.2 ?_)
      exact each.imp fun child other same => ⟨congrArg Place.child same.1, same.2⟩
    · cases wild with
      | some related => exact .cons ⟨rfl, related⟩ .nil
      | none => exact .nil
  | arrayOf explicit related => exact .cons ⟨rfl, related⟩ .nil
  | boundary related => exact .cons ⟨rfl, related⟩ .nil

end Matches

end Node

/-- What two shapes declare for a name is related if their children and wildcards are. -/
theorem Shape.lookup_rel {R : Structure → Structure → Prop}
    {children others : List (String × Structure)} {wildcard other : Option Structure}
    (each : List.Forall₂ (fun child other => child.1 = other.1 ∧ R child.2 other.2) children others)
    (wild : Option.Rel R wildcard other) (name : String) (allowWildcard : Bool) :
    Option.Rel R (lookup children wildcard name allowWildcard)
      (lookup others other name allowWildcard) := by
  induction each with
  | nil =>
    cases allowWildcard with
    | true => simpa [lookup, child?] using wild
    | false => simp [lookup, child?]
  | @cons child other children others first _ hypothesis =>
    by_cases named : child.1 = name
    · have also : other.1 = name := first.1 ▸ named
      simpa [lookup, child?, named, also] using Option.Rel.some first.2
    · have also : ¬ other.1 = name := first.1 ▸ named
      simpa [lookup, child?, named, also] using hypothesis

/-- Two related shapes declare structures for a name that are related, or both declare none. -/
theorem Shape.lookup_cases {R : Structure → Structure → Prop}
    {children others : List (String × Structure)} {wildcard other : Option Structure}
    (each : List.Forall₂ (fun child other => child.1 = other.1 ∧ R child.2 other.2) children others)
    (wild : Option.Rel R wildcard other) (name : String) :
    (lookup children wildcard name true = none ∧ lookup others other name true = none) ∨
      ∃ child another, lookup children wildcard name true = some child ∧
        lookup others other name true = some another ∧ R child another := by
  have declared := lookup_rel each wild name true
  generalize lookup children wildcard name true = found at declared
  generalize lookup others other name true = otherFound at declared
  cases declared with
  | none => exact .inl ⟨rfl, rfl⟩
  | some related => exact .inr ⟨_, _, rfl, rfl, related⟩

namespace Structure

/-- What a shape rejects in the value of an entry. -/
def rejectionsAt (scope : Scope) (children : List (String × Structure))
    (wildcard : Option Structure) (entry : String × Value) : List Rejection :=
  match Shape.lookup children wildcard entry.1 true with
  | some child => child.rejections scope entry.2
  | none => []

/-- A shape rejects what it rejects in the values of the entries. -/
theorem rejectionsInEntries_eq_flatMap (scope : Scope) (children : List (String × Structure))
    (wildcard : Option Structure) (entries : Entries) :
    rejectionsInEntries scope children wildcard entries =
      entries.flatMap (rejectionsAt scope children wildcard) := by
  induction entries with
  | nil => simp [rejectionsInEntries]
  | cons entry entries hypothesis =>
    obtain ⟨name, value⟩ := entry
    rw [rejectionsInEntries, hypothesis, List.flatMap_cons, rejectionsAt]
    cases Shape.lookup children wildcard name true <;> rfl

/-- An array rejects what its element structure rejects in the items. -/
theorem rejectionsInItems_eq_flatMap (scope : Scope) (element : Structure) (items : List Value) :
    rejectionsInItems scope element items = items.flatMap (element.rejections scope) := by
  induction items with
  | nil => simp [rejectionsInItems]
  | cons item items hypothesis => rw [rejectionsInItems, hypothesis, List.flatMap_cons]

end Structure

/-- The inner nodes of related structures, each in its scope, match. -/
def Similarity (left right : Scope) (R : Structure → Structure → Prop) : Prop :=
  ∀ content other, R content other → (content.inner left).Matches R (other.inner right)

namespace Similarity

variable {left right : Scope} {R : Structure → Structure → Prop} {content other : Structure}

/-- What a structure keeps of a value a similar one keeps. -/
theorem conform_eq {content other : Structure} (similar : Similarity left right R)
    (related : R content other) (value : Value) :
    content.conform left value = other.conform right value := by
  have matched := similar content other related
  generalize own : content.inner left = node at matched
  generalize also : other.inner right = similarNode at matched
  cases matched with
  | scalar kind explicit => cases value <;> simp [Structure.conform, own, also]
  | custom check message explicit => cases value <;> simp [Structure.conform, own, also]
  | boundary _ =>
    have plain := content.isBoundary_inner left
    simp [own, Node.isBoundary] at plain
  | @arrayOf element otherElement explicit elements =>
    cases value with
    | array items =>
      have each : ∀ item ∈ items, element.conform left item = otherElement.conform right item :=
        fun item member => conform_eq similar elements item
      simp only [Structure.conform, own, also, Structure.conformItems_eq_filterMap]
      rw [List.filterMap_congr each]
    | _ => simp [Structure.conform, own, also, Node.keep?, Node.ownValidator?]
  | @shape children others wildcard otherWildcard explicit names wild =>
    cases value with
    | object entries =>
      have each : ∀ entry ∈ entries,
          Structure.conformAt left children wildcard entry.1 entry.2 =
            Structure.conformAt right others otherWildcard entry.1 entry.2 := by
        intro entry member
        rcases Shape.lookup_cases names wild entry.1 with
          ⟨found, alsoNone⟩ | ⟨child, otherChild, found, alsoFound, among⟩
        · simp only [Structure.conformAt, found, alsoNone, Option.bind_none]
        · have kept := conform_eq similar among entry.2
          have empty := (similar _ _ among).empty?_eq
          simp only [Structure.conformAt, found, alsoFound, Option.bind_some, kept, empty]
      simp only [Structure.conform, own, also, Structure.conformEntries_eq_filterMap]
      rw [List.filterMap_congr fun entry member => by rw [each entry member]]
    | _ => simp [Structure.conform, own, also, Node.keep?, Node.ownValidator?]
termination_by sizeOf value
decreasing_by
  · exact Value.sizeOf_entry_lt member
  · exact Value.sizeOf_item_lt member

/-- What a structure rejects in a value a similar one rejects. -/
theorem rejections_eq {content other : Structure} (similar : Similarity left right R)
    (related : R content other) (value : Value) :
    content.rejections left value = other.rejections right value := by
  have matched := similar content other related
  generalize own : content.inner left = node at matched
  generalize also : other.inner right = similarNode at matched
  cases matched with
  | scalar kind explicit => cases value <;> simp [Structure.rejections, own, also]
  | custom check message explicit => cases value <;> simp [Structure.rejections, own, also]
  | boundary _ =>
    have plain := content.isBoundary_inner left
    simp [own, Node.isBoundary] at plain
  | @arrayOf element otherElement explicit elements =>
    cases value with
    | array items =>
      have each : ∀ item ∈ items,
          element.rejections left item = otherElement.rejections right item :=
        fun item member => rejections_eq similar elements item
      simp only [Structure.rejections, own, also, Structure.rejectionsInItems_eq_flatMap]
      exact List.flatMap_congr each
    | _ => simp [Structure.rejections, own, also, Node.rejection, Node.ownValidator?]
  | @shape children others wildcard otherWildcard explicit names wild =>
    cases value with
    | object entries =>
      have each : ∀ entry ∈ entries, Structure.rejectionsAt left children wildcard entry =
          Structure.rejectionsAt right others otherWildcard entry := by
        intro entry member
        rcases Shape.lookup_cases names wild entry.1 with
          ⟨found, alsoNone⟩ | ⟨child, otherChild, found, alsoFound, among⟩
        · simp only [Structure.rejectionsAt, found, alsoNone]
        · simp only [Structure.rejectionsAt, found, alsoFound]
          exact rejections_eq similar among entry.2
      simp only [Structure.rejections, own, also, Structure.rejectionsInEntries_eq_flatMap]
      exact List.flatMap_congr each
    | _ => simp [Structure.rejections, own, also, Node.rejection, Node.ownValidator?]
termination_by sizeOf value
decreasing_by
  · exact Value.sizeOf_entry_lt member
  · exact Value.sizeOf_item_lt member

/-- Similar structures have the same default. -/
theorem defaultValue_eq (similar : Similarity left right R) (related : R content other) :
    content.defaultValue left = other.defaultValue right :=
  (similar content other related).ownDefault_eq

/-- Similar structures are both shapes with a wildcard or both not. -/
theorem hasWildcard_eq (similar : Similarity left right R) (related : R content other) :
    content.hasWildcard left = other.hasWildcard right := by
  have matched := similar content other related
  rw [Structure.hasWildcard, Structure.hasWildcard]
  generalize content.inner left = node at matched
  generalize other.inner right = similarNode at matched
  cases matched with
  | shape explicit names wild => cases wild <;> rfl
  | _ => rfl

/-- What similar shapes keep of an object is the same, and so is what they reject in it. -/
theorem sanitizeShape_eq (similar : Similarity left right R) (related : R content other)
    (value : Value) :
    content.sanitizeShape left value = other.sanitizeShape right value ∧
      content.shapeRejections left value = other.shapeRejections right value := by
  have matched := similar content other related
  have kept := similar.conform_eq related value
  have rejected := similar.rejections_eq related value
  generalize own : content.inner left = node at matched
  generalize also : other.inner right = similarNode at matched
  cases value with
  | object entries =>
    cases matched with
    | shape explicit names wild =>
      simp only [Structure.conform, own, also, Option.some.injEq] at kept
      simp only [Structure.rejections, own, also] at rejected
      simp only [Structure.sanitizeShape, Structure.shapeRejections, own, also]
      exact ⟨kept, rejected⟩
    | _ => simp [Structure.sanitizeShape, Structure.shapeRejections, own, also]
  | _ => simp [Structure.sanitizeShape, Structure.shapeRejections]

/-- The elements of similar structures are similar. -/
theorem element_rel (similar : Similarity left right R) (related : R content other) :
    R (content.element left) (other.element right) := by
  have matched := similar content other related
  rw [Structure.element, Structure.element]
  generalize content.inner left = node at matched
  generalize other.inner right = similarNode at matched
  cases matched with
  | arrayOf explicit elements => exact elements
  | _ => exact related

/-- What similar structures keep of an array is the same, and so is what they reject in it. -/
theorem sanitizeArray_eq (similar : Similarity left right R) (related : R content other)
    (value : Value) :
    content.sanitizeArray left value = other.sanitizeArray right value ∧
      content.arrayRejections left value = other.arrayRejections right value := by
  have elements := similar.element_rel related
  cases value with
  | array items =>
    simp only [Structure.sanitizeArray, Structure.arrayRejections,
      Structure.conformItems_eq_filterMap, Structure.rejectionsInItems_eq_flatMap]
    exact ⟨List.filterMap_congr fun item _ => similar.conform_eq elements item,
      List.flatMap_congr fun item _ => similar.rejections_eq elements item⟩
  | _ => simp [Structure.sanitizeArray, Structure.arrayRejections]

end Similarity

namespace Leaf

variable {leaf other : Leaf}

/-- Two leaves do the same with every action that is no batch. -/
structure Agrees (leaf other : Leaf) : Prop where
  /-- They have the same actions. -/
  actions : leaf.actions = other.actions
  /-- They have the same initial value. -/
  initial : leaf.initial = other.initial
  /-- They come to the same state. -/
  simple : ∀ state type payload index,
    leaf.applySimple state type payload index = other.applySimple state type payload index
  /-- They make the same events. -/
  events : ∀ type payload, leaf.traceSimple type payload = other.traceSimple type payload

mutual
/-- Leaves that do the same with every action that is no batch do the same with every action. -/
theorem Agrees.apply_eq (agrees : leaf.Agrees other) : ∀ (action : Action) (state : Value),
    leaf.apply state action = other.apply state action
  | ⟨type, payload, index, _, actions⟩, state => by
    rw [apply, apply, agrees.applyAll_eq actions state, agrees.simple]

/-- They do the same with the actions of a batch. -/
theorem Agrees.applyAll_eq (agrees : leaf.Agrees other) : ∀ (actions : List Action) (state : Value),
    leaf.applyAll state actions = other.applyAll state actions
  | [], state => by rw [applyAll, applyAll]
  | action :: actions, state => by
    rw [applyAll, applyAll, agrees.apply_eq action state, agrees.applyAll_eq actions,
      agrees.applyAll_eq actions, agrees.actions]
end

mutual
/-- Leaves that make the same events at every action that is no batch make the same events at every
action. -/
theorem Agrees.trace_eq (agrees : leaf.Agrees other) : ∀ action : Action,
    leaf.trace action = other.trace action
  | ⟨type, payload, _, _, actions⟩ => by
    rw [trace, trace, agrees.traceAll_eq actions, agrees.events]

/-- They make the same events at the actions of a batch. -/
theorem Agrees.traceAll_eq (agrees : leaf.Agrees other) : ∀ actions : List Action,
    leaf.traceAll actions = other.traceAll actions
  | [] => by rw [traceAll, traceAll]
  | action :: actions => by
    rw [traceAll, traceAll, agrees.trace_eq action, agrees.traceAll_eq actions, agrees.actions]
end

/-- Leaves that do the same with every action that is no batch have the same reducer. -/
theorem Agrees.reducer_eq (agrees : leaf.Agrees other) : leaf.reducer = other.reducer := by
  rw [reducer, reducer, Reducer.mk.injEq]
  constructor
  · funext state action
    rw [agrees.initial, agrees.apply_eq]
  · funext action
    exact agrees.trace_eq action

end Leaf

/-- A node has one container for its leaves. -/
theorem Container.IsFor.unique {node : Node} {container other : Container}
    (isFor : container.IsFor node) (also : other.IsFor node) : container = other := by
  cases isFor with
  | value owned =>
    cases also with
    | value same => rw [Option.some.inj (owned.symm.trans same)]
    | shape shaped => simp [shaped, Node.ownValidator?] at owned
    | array listed => simp [listed, Node.ownValidator?] at owned
  | shape shaped =>
    subst shaped
    cases also with
    | value owned => simp [Node.ownValidator?] at owned
    | shape => rfl
    | array listed => cases listed
  | array listed =>
    subst listed
    cases also with
    | value owned => simp [Node.ownValidator?] at owned
    | shape shaped => cases shaped
    | array => rfl

/-- What a leaf of a compiled tree shows: its actions, its reducer and its selector. -/
def CompiledLeaf.view (compiled : CompiledLeaf) : LeafActions × Reducer × Selector :=
  (compiled.leaf.actions, compiled.leaf.reducer, compiled.selector)

namespace Similarity

variable {left right : Scope} {R : Structure → Structure → Prop} {content other : Structure}

/-- Leaves of similar structures with the same container, at the same location, do the same. -/
theorem agrees (similar : Similarity left right R) (related : R content other)
    (container : Container) (location : String) :
    Leaf.Agrees ⟨left, content, container, content.defaultValue left, location⟩
      ⟨right, other, container, other.defaultValue right, location⟩ := by
  have initial := similar.defaultValue_eq related
  have shapes := similar.sanitizeShape_eq related
  have arrays := similar.sanitizeArray_eq related
  refine ⟨rfl, initial, fun state type payload index => ?_, fun type payload => ?_⟩
  · cases container <;>
      simp only [Leaf.applySimple, Leaf.replace, Leaf.update, initial, shapes, arrays] <;> rfl
  · cases container <;> simp only [Leaf.traceSimple, shapes, arrays] <;> rfl

/-- Leaves of similar structures at the same mount show the same. -/
theorem compileLeaf_view (similar : Similarity left right R) (related : R content other)
    (mount : Mount) : ∃ compiled instead, content.compileLeaf left mount = .ok compiled ∧
      other.compileLeaf right mount = .ok instead ∧ compiled.view = instead.view := by
  obtain ⟨container, isFor, made⟩ := Leaf.of_eq_ok left content mount.location
  obtain ⟨another, alsoFor, also⟩ := Leaf.of_eq_ok right other mount.location
  obtain rfl := ((similar content other related).isFor isFor).unique alsoFor
  have agrees := similar.agrees related container mount.location
  let leaf : Leaf := ⟨left, content, container, content.defaultValue left, mount.location⟩
  let another : Leaf := ⟨right, other, container, other.defaultValue right, mount.location⟩
  refine ⟨⟨leaf, mount.selector⟩, ⟨another, mount.selector⟩, ?_, ?_, ?_⟩
  · rw [Structure.compileLeaf, made]
    rfl
  · rw [Structure.compileLeaf, also]
    rfl
  · rw [CompiledLeaf.view, CompiledLeaf.view, agrees.actions, agrees.reducer_eq]

end Similarity

end StateSlice
