import Mathlib.Logic.Relation
import StateSlice.Proofs.Descents
import StateSlice.Proofs.Visits

/-!
# What occurs in a structure

A structure that does not refer to itself has a finite unfolding, in which every deferral is
followed as often as it is met. What occurs in it can be listed without a thought of open deferrals,
each occurrence before its parts. If no more positions are deferred on any way than may be open,
that list is what the audit goes through, and the issues are those of the occurrences, one by one:
the audit misses none, and reports none twice.
-/
namespace StateSlice

open Json (Value)

namespace Structure

/-- The unfolding of a structure is finite, and on no way into it more positions are deferred than a
limit. Below a position that resolves to no node there is nothing. -/
inductive DefersAtMost (scope : Scope) : (limit : Nat) → Structure → Prop
  /-- The structure resolves to no node. -/
  | unresolved {rest : Nat} {content : Structure} : content.resolve? scope = none →
      DefersAtMost scope (rest + if content.isDeferred then 1 else 0) content
  /-- The structure resolves to a node with parts of finite unfolding. -/
  | node {rest : Nat} {content : Structure} {node : Node} : content.resolve? scope = some node →
      (∀ part ∈ node.parts, DefersAtMost scope rest part.2) →
      DefersAtMost scope (rest + if content.isDeferred then 1 else 0) content

/-- A structure is a part of the node that another resolves to. -/
def IsPartOf (scope : Scope) (part content : Structure) : Prop :=
  ∃ node place, content.resolve? scope = some node ∧ (place, part) ∈ node.parts

variable {scope : Scope} {content : Structure} {limit : Nat}

/-- A limit on the positions that are deferred, and what is left of it for the parts. -/
theorem DefersAtMost.exists_rest (defers : content.DefersAtMost scope limit) :
    ∃ rest, limit = rest + (if content.isDeferred then 1 else 0) ∧
      ∀ node, content.resolve? scope = some node →
        ∀ part ∈ node.parts, part.2.DefersAtMost scope rest := by
  cases defers with
  | @unresolved rest _ unresolved =>
    refine ⟨rest, rfl, fun node resolved => ?_⟩
    rw [unresolved] at resolved
    exact nomatch resolved
  | @node rest _ own resolved parts =>
    refine ⟨rest, rfl, fun node also => ?_⟩
    obtain rfl := Option.some.inj (resolved.symm.trans also)
    exact parts

/-- A node at hand takes nothing from the limit. -/
theorem DefersAtMost.ready {node : Node}
    (parts : ∀ part ∈ node.parts, part.2.DefersAtMost scope limit) :
    (Structure.ready node).DefersAtMost scope limit :=
  have same : (Structure.ready node).DefersAtMost scope (limit + 0) :=
    @DefersAtMost.node scope limit (.ready node) node rfl parts
  same

/-- Going from part to part in a finite unfolding ends. -/
theorem DefersAtMost.acc (defers : content.DefersAtMost scope limit) :
    Acc (IsPartOf scope) content := by
  induction defers with
  | unresolved unresolved =>
    refine ⟨_, fun part ⟨own, place, resolved, _⟩ => ?_⟩
    rw [unresolved] at resolved
    exact nomatch resolved
  | node resolved _ hypothesis =>
    refine ⟨_, fun part ⟨own, place, also, member⟩ => ?_⟩
    obtain rfl := Option.some.inj (resolved.symm.trans also)
    exact hypothesis (place, part) member

/-- Where a walk through a finite unfolding has come, the rest of the limit is for what is not open
yet, and it is strictly inside all that is open. -/
theorem Visits.defersAtMost {root place : Structure} {opened : Opened} {path : List Place}
    (defers : root.DefersAtMost scope maxHops) (visits : Visits scope root opened path place) :
    (∃ limit, place.DefersAtMost scope limit ∧ limit + opened.length ≤ maxHops) ∧
      ∀ label, some label ∈ opened →
        Relation.TransGen (IsPartOf scope) place (.deferred (.named label)) := by
  induction visits with
  | root => exact ⟨⟨maxHops, defers, Nat.le_refl _⟩, fun _ member => absurd member List.not_mem_nil⟩
  | @part opened path place node part _ found member hypothesis =>
    obtain ⟨⟨limit, few, room⟩, inside⟩ := hypothesis
    have resolved := resolve?_of_find found
    have step : IsPartOf scope part.2 place := ⟨node, part.1, resolved, member⟩
    constructor
    · obtain ⟨rest, rfl, parts⟩ := few.exists_rest
      refine ⟨rest, parts node resolved part member, ?_⟩
      rw [length_opening]
      omega
    · intro label open_
      rcases mem_opening_iff.1 open_ with rfl | earlier
      · exact .single step
      · exact .head step (inside label earlier)

/-- A walk through a finite unfolding meets nothing that it must not enter. -/
theorem Visits.find_ne_closed {root place : Structure} {opened : Opened} {path : List Place}
    (defers : root.DefersAtMost scope maxHops) (visits : Visits scope root opened path place) :
    place.find scope opened ≠ .closed := by
  intro closed
  obtain ⟨⟨limit, few, room⟩, inside⟩ := visits.defersAtMost defers
  rcases closed_cases closed with ⟨label, rfl, member⟩ | ⟨deferred, full⟩
  · exact not_acc_of_transGen (inside label member) few.acc
  · obtain ⟨rest, rfl, -⟩ := few.exists_rest
    rw [if_pos deferred] at room
    omega

end Structure

/-- A structure where it occurs in another: the text of the way to it, and whether the way has come
into an array. -/
structure Occurrence where
  /-- What occurs. -/
  content : Structure
  /-- The text of the way. -/
  text : String
  /-- Whether the way has come into an array. -/
  inArray : Bool

namespace Occurrence

/-- A structure as a whole. -/
def root (content : Structure) : Occurrence := ⟨content, "$", false⟩

/-- A part of what occurs: the way goes on to a child, to the wildcard or into an array, and stays
where it is when it goes into a boundary. -/
def part (whole : Occurrence) : Place × Structure → Occurrence
  | (.child name, content) => ⟨content, whole.text ++ "." ++ name, whole.inArray⟩
  | (.wildcard, content) => ⟨content, whole.text ++ ".*", whole.inArray⟩
  | (.element, content) => ⟨content, whole.text ++ "[]", true⟩
  | (.inside, content) => ⟨content, whole.text, whole.inArray⟩

mutual
/-- A list of all that occurs in the unfolding from an occurrence on: the occurrence itself, then
what occurs in its parts, in their order. -/
inductive Lists (scope : Scope) : Occurrence → List Occurrence → Prop
  /-- Below what resolves to no node nothing occurs. -/
  | unresolved {whole : Occurrence} : whole.content.resolve? scope = none →
      Lists scope whole [whole]
  /-- What resolves to a node has the parts of the node. -/
  | node {whole : Occurrence} {node : Node} {below : List Occurrence} :
      whole.content.resolve? scope = some node → ListsParts scope whole node.parts below →
      Lists scope whole (whole :: below)

/-- A list of all that occurs in some parts of an occurrence, part by part. -/
inductive ListsParts (scope : Scope) :
    Occurrence → List (Place × Structure) → List Occurrence → Prop
  /-- Without parts there is nothing. -/
  | nil {whole : Occurrence} : ListsParts scope whole [] []
  /-- What occurs in the first part comes before what occurs in the others. -/
  | cons {whole : Occurrence} {part : Place × Structure} {parts : List (Place × Structure)}
      {first rest : List Occurrence} : Lists scope (whole.part part) first →
      ListsParts scope whole parts rest → ListsParts scope whole (part :: parts) (first ++ rest)
end

/-- What is wrong with an occurrence, if anything is: it resolves to no node; it is a boundary in an
array; or sanitizing does not keep the default that it declares as it is. -/
def issue? (scope : Scope) (occurrence : Occurrence) : Option IssueKind :=
  match occurrence.content.resolve? scope with
  | none => some .unresolvedDeferred
  | some (.boundary _) => if occurrence.inArray then some .boundaryInArray else none
  | some node => node.explicit?.bind fun value =>
    if occurrence.content.conform scope value = some value then none else some .defaultMismatch

variable {scope : Scope} {whole : Occurrence}

mutual
/-- What occurs is listed in one way. -/
theorem Lists.unique {whole : Occurrence} {list other : List Occurrence} :
    Lists scope whole list → Lists scope whole other → list = other
  | .unresolved _, .unresolved _ => rfl
  | .unresolved unresolved, .node resolved _ => nomatch unresolved.symm.trans resolved
  | .node resolved _, .unresolved unresolved => nomatch unresolved.symm.trans resolved
  | .node resolved below, .node also others => by
    obtain rfl := Option.some.inj (resolved.symm.trans also)
    rw [below.unique others]

/-- What occurs in parts is listed in one way. -/
theorem ListsParts.unique {whole : Occurrence} {parts : List (Place × Structure)}
    {list other : List Occurrence} :
    ListsParts scope whole parts list → ListsParts scope whole parts other → list = other
  | .nil, .nil => rfl
  | .cons first rest, .cons also others => by rw [first.unique also, rest.unique others]
end

/-- If what occurs in each part is listed, the lists put together list what occurs in the parts. -/
theorem listsParts_flatMap {parts : List (Place × Structure)}
    {f : Place × Structure → List Occurrence}
    (each : ∀ part ∈ parts, Lists scope (whole.part part) (f part)) :
    ListsParts scope whole parts (parts.flatMap f) := by
  induction parts with
  | nil => exact .nil
  | cons part parts hypothesis =>
    rw [List.flatMap_cons]
    exact .cons (each part List.mem_cons_self)
      (hypothesis fun other member => each other (List.mem_cons_of_mem _ member))

end Occurrence

namespace Visit

/-- The occurrence at the end of a path. -/
def occurrenceAt (path : List Place) (content : Structure) : Occurrence :=
  ⟨content, pathText path, path.contains .element⟩

/-- What is visited. -/
def occurrence (visit : Visit) : Occurrence := occurrenceAt visit.path visit.content

/-- A path goes on to a part of what is at its end. -/
theorem part_occurrenceAt (path : List Place) (content : Structure) (part : Place × Structure) :
    (occurrenceAt path content).part part = occurrenceAt (path ++ [part.1]) part.2 := by
  obtain ⟨place, below⟩ := part
  cases place <;>
    simp [occurrenceAt, Occurrence.part, pathText, Place.text, String.append_assoc]

variable {scope : Scope}

/-- The kinds of issue that a visit raises are that of what is visited, unless the walk must not
enter it. -/
theorem issueKinds_eq {visit : Visit} {opened : Opened}
    (finding : visit.finding = visit.content.find scope opened)
    (entered : visit.finding ≠ .closed) :
    visit.issueKinds scope = (visit.occurrence.issue? scope).toList := by
  obtain ⟨path, content, found⟩ := visit
  obtain rfl : found = content.find scope opened := finding
  cases found : content.find scope opened with
  | closed => exact absurd found entered
  | unresolved =>
    have resolved := Structure.resolve?_of_unresolved found
    simp [issueKinds, Occurrence.issue?, occurrence, occurrenceAt, resolved]
  | found node =>
    have resolved := Structure.resolve?_of_find found
    cases node with
    | boundary inner =>
      by_cases inside : Place.element ∈ path <;>
        simp [issueKinds, Occurrence.issue?, occurrence, occurrenceAt, resolved, isInArray,
          Node.explicit?, Node.isBoundary, inside]
    | scalar _ explicit | custom _ _ explicit | shape _ _ explicit | arrayOf _ explicit =>
      cases explicit with
      | none =>
        simp [issueKinds, Occurrence.issue?, occurrence, occurrenceAt, resolved, Node.explicit?,
          Node.isBoundary]
      | some value =>
        by_cases kept : content.conform scope value = some value <;>
          simp [issueKinds, Occurrence.issue?, occurrence, occurrenceAt, resolved, Node.explicit?,
            Node.isBoundary, kept]

/-- The issues that a visit raises, as they are shown, are that of what is visited. -/
theorem issues_eq {visit : Visit} {opened : Opened}
    (finding : visit.finding = visit.content.find scope opened)
    (entered : visit.finding ≠ .closed) :
    (visit.issues scope).map (fun issue => (issue.kind, issue.pathText)) =
      ((visit.occurrence.issue? scope).map (·, visit.occurrence.text)).toList := by
  rw [issues, issueKinds_eq finding entered, List.map_map]
  cases visit.occurrence.issue? scope <;> rfl

end Visit

namespace Structure

variable {scope : Scope}

/-- A walk that meets nothing that it must not enter visits what occurs, in order. -/
theorem lists_surveyFrom {opened : Opened} {path : List Place} {content : Structure}
    (entered : ∀ visit ∈ content.surveyFrom scope opened path, visit.finding ≠ .closed) :
    Occurrence.Lists scope (Visit.occurrenceAt path content)
      ((content.surveyFrom scope opened path).map Visit.occurrence) := by
  have here := entered _ (visit_mem_surveyFrom scope opened path content)
  cases found : content.find scope opened with
  | closed => exact absurd found here
  | unresolved =>
    rw [surveyFrom_eq, found]
    exact .unresolved (resolve?_of_unresolved found)
  | found node =>
    have each : ∀ part ∈ node.parts, Occurrence.Lists scope
        ((Visit.occurrenceAt path content).part part)
        ((part.2.surveyFrom scope (content.opening opened) (path ++ [part.1])).map
          Visit.occurrence) := by
      intro part member
      rw [Visit.part_occurrenceAt]
      exact lists_surveyFrom fun visit visited =>
        entered visit (surveyFrom_part_subset found member visited)
    rw [surveyFrom_eq, found, List.map_cons, List.map_flatMap]
    exact .node (resolve?_of_find found) (Occurrence.listsParts_flatMap each)
termination_by (maxHops - opened.length, sizeOf content)
decreasing_by exact walk_decreases found (Node.sizeOf_lt_of_mem_parts member)

/-- The audit of a structure of finite unfolding, in which no more positions are deferred on any way
than may be open, is exact: there is one list of all that occurs in the structure, and the audit
reports the issues of those occurrences, one for each that has one, in their order and each with the
text of the way to it. So it reports nothing exactly if nothing that occurs has an issue. -/
theorem audit_eq_of_defersAtMost {content : Structure}
    (defers : content.DefersAtMost scope maxHops) :
    ∃ occurrences, (∀ list, Occurrence.Lists scope (.root content) list ↔ list = occurrences) ∧
      (content.audit scope).map (fun issue => (issue.kind, issue.pathText)) =
        occurrences.filterMap (fun occurrence =>
          (occurrence.issue? scope).map (·, occurrence.text)) ∧
      (content.audit scope = [] ↔
        ∀ occurrence ∈ occurrences, occurrence.issue? scope = none) := by
  have entered : ∀ visit ∈ content.survey scope, visit.finding ≠ .closed := by
    intro visit visited
    obtain ⟨opened, visits, finding⟩ := mem_survey_iff.1 visited
    rw [finding]
    exact visits.find_ne_closed defers
  have listed : Occurrence.Lists scope (.root content)
      ((content.survey scope).map Visit.occurrence) := lists_surveyFrom entered
  have issues : (content.audit scope).map (fun issue => (issue.kind, issue.pathText)) =
      ((content.survey scope).map Visit.occurrence).filterMap fun occurrence =>
        (occurrence.issue? scope).map (·, occurrence.text) := by
    rw [audit, List.map_flatMap, List.filterMap_map, List.filterMap_eq_flatMap_toList]
    refine List.flatMap_congr fun visit visited => ?_
    obtain ⟨opened, -, finding⟩ := mem_survey_iff.1 visited
    exact Visit.issues_eq finding (entered visit visited)
  refine ⟨_, fun list => ⟨fun also => also.unique listed, fun same => same ▸ listed⟩, issues, ?_⟩
  rw [← List.map_eq_nil_iff, issues, List.filterMap_eq_nil_iff]
  simp only [Option.map_eq_none_iff]

/-- Two labels that lead to scalars: one in as many hops as are followed, and one in one more. -/
def farLabels : Scope
  | 0 => .reaches 63 (.scalar .number (some (.string "high")))
  | _ => .reaches 64 (.scalar .string none)

/-- The rows of a log: a boundary is inside the array, and sanitizing changes the default. -/
def mistakenRows : Structure :=
  .ready (.arrayOf (boundary (scalar .string)) (some (.array [.string "start", .null])))

/-- The structure of a log: sanitizing rejects the default of the level, the rows have mistakes of
their own, and the wildcard leads too far. -/
def mistakenLog : Structure :=
  .ready (.shape [("level", .deferred (.named 0)), ("rows", mistakenRows)]
    (some (.deferred (.named 1))) (some (.object [("level", .number (.int 3))])))

/-- The log is made of few deferrals, and its audit has the mistakes in the order in which they
occur: the default of the level, that of the rows, the boundary inside them and the wildcard. -/
theorem audit_eq_of_defersAtMost_mistakenLog :
    mistakenLog.DefersAtMost farLabels maxHops ∧
      (mistakenLog.audit farLabels).map (fun issue => (issue.kind, issue.pathText)) =
        [(.defaultMismatch, "$.level"), (.defaultMismatch, "$.rows"),
          (.boundaryInArray, "$.rows[]"), (.unresolvedDeferred, "$.*")] := by
  have level : (Structure.deferred (.named 0)).DefersAtMost farLabels maxHops :=
    @DefersAtMost.node farLabels 63 (.deferred (.named 0)) (.scalar .number (some (.string "high")))
      rfl fun _ member => absurd member List.not_mem_nil
  have item : (scalar .string).DefersAtMost farLabels maxHops :=
    .ready fun _ member => absurd member List.not_mem_nil
  have element : (boundary (scalar .string)).DefersAtMost farLabels maxHops :=
    .ready (List.forall_mem_singleton.2 item)
  have rows : mistakenRows.DefersAtMost farLabels maxHops :=
    .ready (List.forall_mem_singleton.2 element)
  have others : (Structure.deferred (.named 1)).DefersAtMost farLabels maxHops :=
    @DefersAtMost.unresolved farLabels 63 (.deferred (.named 1)) rfl
  have defers : mistakenLog.DefersAtMost farLabels maxHops :=
    .ready (by simp [Node.parts, level, rows, others])
  have listed : Occurrence.Lists farLabels (.root mistakenLog) _ :=
    .node rfl (.cons (.node rfl .nil) (.cons (.node rfl (.cons (.node rfl (.cons (.node rfl .nil)
      .nil)) .nil)) (.cons (.unresolved rfl) .nil)))
  obtain ⟨occurrences, lists, issues, -⟩ := audit_eq_of_defersAtMost defers
  obtain rfl := (lists _).1 listed
  refine ⟨defers, issues.trans ?_⟩
  decide

end Structure

end StateSlice
