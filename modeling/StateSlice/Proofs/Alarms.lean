import Mathlib.Logic.Relation
import StateSlice.Proofs.InnerNodes

/-!
# Alarms of recursion

The audit gives the alarm where its walk meets again a deferral that is open, outside arrays, and a
search from there finds a boundary. Where compiling goes the way of the walk, the alarm is right:
what leads from the deferral back to itself leads compiling back to where it was. So if compiling
ends nevertheless, the walk has gone where compiling does not go, into a wildcard for one, or it is
stopped by the limit on open deferrals, or compiling has lost it in boundaries that nest deeper than
are looked through.
-/
namespace StateSlice

/-- Only a boundary has an inside. -/
theorem Node.isBoundary_iff_of_mem_parts {node : Node} {part : Place × Structure}
    (member : part ∈ node.parts) : node.isBoundary = true ↔ part.1 = .inside := by
  cases node with
  | shape children wildcard explicit =>
    rcases List.mem_append.1 member with named | wild
    · obtain ⟨child, -, rfl⟩ := List.mem_map.1 named
      simp [Node.isBoundary]
    · obtain ⟨child, -, rfl⟩ := List.mem_map.1 wild
      simp [Node.isBoundary]
  | arrayOf element explicit =>
    obtain rfl := List.mem_singleton.1 member
    simp [Node.isBoundary]
  | boundary inner =>
    obtain rfl := List.mem_singleton.1 member
    simp [Node.isBoundary]
  | _ => exact absurd member List.not_mem_nil

namespace Structure

variable {scope : Scope} {root content position place : Structure} {node : Node} {opened : Opened}

/-- Boundaries lead on from where boundaries lead to. -/
theorem Wraps.trans {outer inner : Nat} {middle below : Structure}
    (first : content.Wraps scope outer middle) (rest : middle.Wraps scope inner below) :
    content.Wraps scope (inner + outer) below := by
  induction outer generalizing content with
  | zero =>
    obtain rfl : content = middle := first
    exact rest
  | succ outer hypothesis =>
    obtain ⟨next, resolved, further⟩ := first
    exact ⟨next, resolved, hypothesis further⟩

/-- A boundary leads to what is inside it. -/
theorem wraps_one {inner : Structure} (resolved : content.resolve? scope = some (.boundary inner)) :
    content.Wraps scope 1 inner := ⟨inner, resolved, rfl⟩

/-- What encloses a node inside boundaries encloses it in all of them. -/
theorem Wraps.encloses {outer inner : Nat} {middle : Structure}
    (wraps : content.Wraps scope outer middle) (encloses : middle.Encloses scope inner node) :
    content.Encloses scope (inner + outer) node := by
  obtain ⟨below, further, own⟩ := encloses
  exact ⟨below, wraps.trans further, own⟩

/-- Boundaries that lead back to themselves nest without end. -/
theorem nests_of_loop {around : Nat} (loop : content.Wraps scope (around + 1) content)
    (boundaries : Nat) : content.Nests scope boundaries := by
  have often (times : Nat) : content.Wraps scope (times * (around + 1)) content := by
    induction times with
    | zero => simp [Wraps]
    | succ times hypothesis =>
      rw [Nat.succ_mul, Nat.add_comm]
      exact hypothesis.trans loop
  have enough : boundaries ≤ boundaries * (around + 1) := Nat.le_mul_of_pos_right _ (by omega)
  exact Nests.of_le ⟨content, often boundaries⟩ enough

namespace Follows

/-- The audit is at a place to which boundaries lead from the position. -/
theorem exists_wraps (follows : Follows scope root opened position place) :
    ∃ boundaries, position.Wraps scope boundaries place := by
  induction follows with
  | root => exact ⟨0, rfl⟩
  | inside _ found hypothesis =>
    obtain ⟨boundaries, wraps⟩ := hypothesis
    exact ⟨_, wraps.trans (wraps_one (resolve?_of_find found))⟩
  | child => exact ⟨0, rfl⟩

/-- From a place where compiling goes on to a part of the node that is found, the audit follows. -/
theorem onward {part : Structure} (follows : Follows scope root opened position place)
    (found : place.find scope opened = .found node) (plain : node.isBoundary = false)
    (goesOn : GoesOn scope part position) :
    Follows scope root (place.opening opened) part part := by
  obtain ⟨name, member, bounded⟩ := goesOn
  obtain ⟨looks, known⟩ := follows.inner_eq_lookThrough
  rw [resolve_of_find found] at known
  cases looks with
  | zero =>
    rw [known] at member
    exact absurd member List.not_mem_nil
  | succ looks =>
    rw [Node.lookThrough_eq_self scope plain] at known
    exact follows.child (known ▸ found) member bounded

end Follows

/-- From what a structure encloses, compiling goes on to a position, by way of a child. -/
def PassesTo (scope : Scope) (content position : Structure) : Prop :=
  ∃ boundaries node name child, content.Encloses scope boundaries node ∧
    (name, child) ∈ node.children ∧ child.hasBoundary scope = true ∧
    Relation.ReflTransGen (GoesOn scope) position child

/-- A label that is open was met inside the boundaries around the position, and boundaries lead from
it to the place, or it was met before, and compiling has gone on from it to the position. -/
theorem Follows.wraps_or_passesTo (follows : Follows scope root opened position place) {label : Nat}
    (member : some label ∈ opened) :
    (∃ boundaries,
      (Structure.deferred (.named label)).Wraps scope (boundaries + 1) place) ∨
      (Structure.deferred (.named label)).PassesTo scope position := by
  induction follows with
  | root => exact absurd member List.not_mem_nil
  | @inside opened position place inner _ found hypothesis =>
    have further := wraps_one (resolve?_of_find found)
    rcases mem_opening_iff.1 member with rfl | earlier
    · exact .inl ⟨0, further⟩
    · rcases hypothesis earlier with ⟨boundaries, wraps⟩ | passes
      · refine .inl ⟨boundaries + 1, ?_⟩
        rw [Nat.add_comm]
        exact wraps.trans further
      · exact .inr passes
  | @child opened position place child name _ found among bounded hypothesis =>
    have plain := position.isBoundary_inner scope
    have own : place.Encloses scope 0 (position.inner scope) :=
      encloses_zero_iff.2 ⟨resolve?_of_find found, plain⟩
    rcases mem_opening_iff.1 member with rfl | earlier
    · exact .inr ⟨0, _, name, child, own, among, bounded, .refl⟩
    · rcases hypothesis earlier with ⟨boundaries, wraps⟩ | ⟨count, node, first, next, rest⟩
      · exact .inr ⟨_, _, name, child, wraps.encloses own, among, bounded, .refl⟩
      · obtain ⟨encloses, inside, reached, onward⟩ := rest
        exact .inr ⟨count, node, first, next, encloses, inside, reached,
          .head ⟨name, among, bounded⟩ onward⟩

/-- Where the audit follows compiling and meets again a label that is open, compiling goes on
forever, or more boundaries nest at the position than are looked through. -/
theorem Follows.nests_or_not_acc {label : Nat}
    (follows : Follows scope root opened position (.deferred (.named label)))
    (member : some label ∈ opened) :
    position.Nests scope (maxHops + 1) ∨ ¬ Acc (GoesOn scope) position := by
  obtain ⟨outer, wraps⟩ := follows.exists_wraps
  rcases follows.wraps_or_passesTo member with ⟨around, loop⟩ | ⟨inner, node, name, child, rest⟩
  · obtain ⟨below, further⟩ := nests_of_loop loop (maxHops + 1)
    exact .inl (Nests.of_le ⟨below, wraps.trans further⟩ (Nat.le_add_right _ _))
  · obtain ⟨encloses, among, bounded, onward⟩ := rest
    have whole := wraps.encloses encloses
    by_cases few : inner + outer ≤ maxHops
    · right
      have own : position.inner scope = node := inner_of_encloses few whole
      have goesOn : GoesOn scope child position := ⟨name, own ▸ among, bounded⟩
      exact fun accessible => not_acc_of_transGen (.head' goesOn onward) (accessible.inv goesOn)
    · obtain ⟨below, further, -⟩ := whole
      exact .inl (Nests.of_le ⟨below, further⟩ (by omega))

/-- The walk of the audit leaves what is compiled: from a place where it follows compiling it goes
to a part to which compiling does not go on. -/
def Strays (scope : Scope) (root : Structure) (path : List Place) : Prop :=
  ∃ opened before position place node part, before ++ [part.1] <+: path ∧
    Visits scope root opened before place ∧ Follows scope root opened position place ∧
    place.find scope opened = .found node ∧ part ∈ node.parts ∧ part.1 ≠ .inside ∧
    ¬ GoesOn scope part.2 position

/-- Where a walk has strayed, it has strayed wherever it goes from there. -/
theorem Strays.append {path : List Place} (strays : root.Strays scope path) (more : List Place) :
    root.Strays scope (path ++ more) := by
  obtain ⟨opened, before, position, place, node, part, ahead, rest⟩ := strays
  exact ⟨opened, before, position, place, node, part, ahead.trans (List.prefix_append _ _), rest⟩

/-- The audit follows compiling unless its walk has strayed. -/
theorem Visits.strays_or_follows {path : List Place}
    (visits : Visits scope root opened path place) :
    root.Strays scope path ∨ ∃ position, Follows scope root opened position place := by
  induction visits with
  | root => exact .inr ⟨root, .root⟩
  | @part opened path place node part visits found member hypothesis =>
    rcases hypothesis with strays | ⟨position, follows⟩
    · exact .inl (strays.append [part.1])
    · have isBoundary := Node.isBoundary_iff_of_mem_parts member
      by_cases bounded : node.isBoundary
      · cases node with
        | boundary inner =>
          obtain rfl := List.mem_singleton.1 member
          exact .inr ⟨position, follows.inside found⟩
        | _ => simp [Node.isBoundary] at bounded
      · by_cases goesOn : GoesOn scope part.2 position
        · exact .inr ⟨part.2, follows.onward found (by simpa using bounded) goesOn⟩
        · exact .inl ⟨opened, path, position, place, node, part, List.prefix_rfl, visits, follows,
            found, member, mt isBoundary.2 bounded, goesOn⟩

/-- The issues of a structure are those that places of the walk raise. -/
theorem mem_audit_iff {kind : IssueKind} {path : List Place} :
    ⟨kind, path⟩ ∈ root.audit scope ↔ ∃ opened place, Visits scope root opened path place ∧
      kind ∈ Visit.issueKinds scope ⟨path, place, place.find scope opened⟩ := by
  simp only [audit, List.mem_flatMap, Visit.issues, List.mem_map, Issue.mk.injEq]
  constructor
  · rintro ⟨⟨path, place, finding⟩, visited, kind, raised, rfl, rfl⟩
    obtain ⟨opened, visits, finds⟩ := mem_survey_iff.1 visited
    obtain rfl : finding = place.find scope opened := finds
    exact ⟨opened, place, visits, raised⟩
  · rintro ⟨opened, place, visits, raised⟩
    exact ⟨_, mem_survey_iff.2 ⟨opened, visits, rfl⟩, kind, raised, rfl, rfl⟩

/-- The alarm of recursion is raised at a place that is not entered, lies outside arrays and has a
boundary. -/
theorem recursiveBoundary_mem_issueKinds_iff {visit : Visit} :
    .recursiveBoundary ∈ visit.issueKinds scope ↔ visit.finding = .closed ∧
      Place.element ∉ visit.path ∧ visit.content.hasBoundary scope = true := by
  obtain ⟨path, content, finding⟩ := visit
  cases finding with
  | closed =>
    by_cases inside : Place.element ∈ path <;> cases bounded : content.hasBoundary scope <;>
      simp [Visit.issueKinds, Visit.isInArray, inside, bounded]
  | unresolved => simp [Visit.issueKinds]
  | found node =>
    simp only [Visit.issueKinds, reduceCtorEq, false_and, iff_false]
    cases node.explicit? with
    | none => simp
    | some value => by_cases kept : content.conform scope value = some value <;> simp [kept]

/-- The audit raises an alarm where compiling does not come back: its walk has strayed from what is
compiled, or it is inside more boundaries than are looked through, or it is stopped by the limit on
open deferrals. -/
def FalseAlarm (scope : Scope) (root : Structure) (path : List Place) : Prop :=
  ∃ opened place, Visits scope root opened path place ∧ place.find scope opened = .closed ∧
    Place.element ∉ path ∧ place.hasBoundary scope = true ∧
    (root.Strays scope path ∨
      (∃ position, Follows scope root opened position place ∧
        position.Nests scope (maxHops + 1)) ∨
      place.isDeferred = true ∧ maxHops ≤ opened.length)

/-- If compiling a structure ends, the audit raises an alarm of recursion at a path exactly if its
walk there has strayed from what is compiled, or is inside more boundaries than are looked through,
or is stopped by the limit on open deferrals, before something that has a boundary. In particular it
raises none on the way of compiling within the limits. -/
theorem recursiveBoundary_mem_audit_iff {mount : Mount} (path : List Place)
    (ends : (root.compile scope mount).isSome = true) :
    ⟨.recursiveBoundary, path⟩ ∈ root.audit scope ↔ root.FalseAlarm scope path := by
  have accessible := isSome_compileAs_iff.1 ends
  simp only [mem_audit_iff, recursiveBoundary_mem_issueKinds_iff]
  constructor
  · rintro ⟨opened, place, visits, closed, outside, bounded⟩
    refine ⟨opened, place, visits, closed, outside, bounded, ?_⟩
    rcases visits.strays_or_follows with strays | ⟨position, follows⟩
    · exact .inl strays
    · rcases closed_cases closed with ⟨label, rfl, member⟩ | full
      · have onWay := follows.acc_of_root accessible
        rcases follows.nests_or_not_acc member with nests | endless
        · exact .inr (.inl ⟨position, follows, nests⟩)
        · exact absurd onWay endless
      · exact .inr (.inr full)
  · rintro ⟨opened, place, visits, closed, outside, bounded, -⟩
    exact ⟨opened, place, visits, closed, outside, bounded⟩

/-- A record: it has a number of its own, in a boundary, and records under all other names. -/
def record : Structure := .deferred (.named 0)

/-- The number of a record. -/
def recordNumber : Structure := .boundary (.scalar .number)

/-- The node of a record. -/
def recordNode : Node := .shape [("own", recordNumber)] (some record) none

/-- The scope in which every label stands for a record. -/
def records : Scope := fun _ => .reaches 0 recordNode

/-- Compiling a record goes on to its number only. -/
theorem eq_of_goesOn_record {next : Structure} (goesOn : GoesOn records next record) :
    next = recordNumber := by
  obtain ⟨name, member, -⟩ := goesOn
  obtain ⟨-, same⟩ := Prod.mk.inj (List.mem_singleton.1 member)
  exact same

/-- Compiling a record ends, as wildcards are not compiled, but the audit raises the alarm of
recursion at the wildcard. -/
theorem falseAlarm_record :
    (record.compile records ⟨.key "s", "s"⟩).isSome = true ∧
      record.FalseAlarm records [.wildcard] ∧
      ⟨.recursiveBoundary, [.wildcard]⟩ ∈ record.audit records := by
  have ends : (record.compile records ⟨.key "s", "s"⟩).isSome = true := by
    refine isSome_compileAs_iff.2 ⟨_, fun next goesOn => ?_⟩
    obtain rfl := eq_of_goesOn_record goesOn
    refine ⟨_, fun further goesOn => ?_⟩
    obtain ⟨name, member, -⟩ := goesOn
    exact absurd member List.not_mem_nil
  have found : record.find records [] = .found recordNode := rfl
  have member : (Place.wildcard, record) ∈ recordNode.parts := by simp [recordNode, Node.parts]
  have visits : Visits records record [some 0] [.wildcard] record := .part .root found member
  have away : ¬ GoesOn records record record := by
    intro goesOn
    have same : record = recordNumber := eq_of_goesOn_record goesOn
    cases same
  have strays : record.Strays records [.wildcard] :=
    ⟨[], [], record, record, recordNode, _, List.prefix_rfl, .root, .root, found, member, by decide,
      away⟩
  have reaches : recordNumber.reachesBoundary records (record.opening []) = true :=
    reachesBoundary_of_boundary rfl
  have bounded : record.hasBoundary records = true :=
    reachesBoundary_of_child found (List.mem_singleton_self _) reaches
  have alarm : record.FalseAlarm records [.wildcard] :=
    ⟨[some 0], record, visits, rfl, by decide, bounded, .inl strays⟩
  exact ⟨ends, alarm, (recursiveBoundary_mem_audit_iff [.wildcard] ends).2 alarm⟩

end Structure

end StateSlice
