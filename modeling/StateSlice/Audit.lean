import StateSlice.Event
import StateSlice.Structure.Walk

/-!
# The audit of a structure

Before a structure is compiled it is surveyed: a walk visits it and all of its parts, each before
its own parts, and every visit may raise issues. A declared default must be a value that sanitizing
keeps as it is. A boundary inside an array would be ignored, and one that a structure reaches
through itself would be compiled without end. A deferral must produce a node.
-/
namespace StateSlice

open Json (Value)

/-- A position of a walk and what is found there. -/
structure Visit where
  /-- The steps from the root. -/
  path : List Place
  /-- The structure at the position. -/
  content : Structure
  /-- What the walk finds. -/
  finding : Finding

/-- A step as it is shown in a path. -/
def Place.text : Place → String
  | .child name => "." ++ name
  | .wildcard => ".*"
  | .element => "[]"
  | .inside => ""

namespace Visit

/-- The path as it is shown. -/
def pathText (path : List Place) : String := path.foldl (fun text place => text ++ place.text) "$"

/-- Whether a position lies inside an array. -/
def isInArray (visit : Visit) : Bool := visit.path.contains .element

end Visit

/-- The kinds of issue. -/
inductive IssueKind
  /-- A default that its own structure does not keep. -/
  | defaultMismatch
  /-- A boundary inside an array. -/
  | boundaryInArray
  /-- A structure that refers to itself through a boundary. -/
  | recursiveBoundary
  /-- A deferral that produces no node. -/
  | unresolvedDeferred
deriving DecidableEq

/-- A mistake in the declaration of a structure. -/
structure Issue where
  /-- What is wrong. -/
  kind : IssueKind
  /-- The steps to the position. -/
  path : List Place
deriving DecidableEq

namespace Issue

/-- The name of the kind of an issue. -/
def kindName (issue : Issue) : String :=
  match issue.kind with
  | .defaultMismatch => "DefaultMismatch"
  | .boundaryInArray => "BoundaryInArray"
  | .recursiveBoundary => "RecursiveBoundary"
  | .unresolvedDeferred => "UnresolvedDeferred"

/-- The path of an issue as it is shown. -/
def pathText (issue : Issue) : String := Visit.pathText issue.path

/-- The text of an issue. -/
def message (issue : Issue) : String :=
  match issue.kind with
  | .defaultMismatch =>
    "Default declared at '" ++ issue.pathText ++ "' does not satisfy its own structure"
  | .boundaryInArray =>
    "Reducer boundary at '" ++ issue.pathText ++
      "' sits inside an array element and would be ignored"
  | .recursiveBoundary =>
    "Structure at '" ++ issue.pathText ++ "' refers back to itself through a reducer boundary"
  | .unresolvedDeferred => "Deferred structure at '" ++ issue.pathText ++ "' never produces a node"

end Issue

namespace Structure

/-- The visits of a walk from a position with some deferrals open, each position before its
parts. -/
def surveyFrom (scope : Scope) (opened : Opened) (path : List Place) (content : Structure) :
    List Visit :=
  ⟨path, content, content.find scope opened⟩ ::
    match _found : content.find scope opened with
    | .found node => node.parts.attach.flatMap fun part =>
        surveyFrom scope (content.opening opened) (path ++ [part.1.1]) part.1.2
    | _ => []
termination_by (maxHops - opened.length, sizeOf content)
decreasing_by exact walk_decreases _found (Node.sizeOf_lt_of_mem_parts part.2)

/-- A visit and the visits of the parts. -/
theorem surveyFrom_eq (scope : Scope) (opened : Opened) (path : List Place) (content : Structure) :
    content.surveyFrom scope opened path =
      ⟨path, content, content.find scope opened⟩ ::
        match content.find scope opened with
        | .found node => node.parts.flatMap fun part =>
            part.2.surveyFrom scope (content.opening opened) (path ++ [part.1])
        | _ => [] := by
  rw [surveyFrom]
  congr 1
  cases content.find scope opened with
  | found node =>
    simp only
    conv => rhs; rw [← List.attach_map_subtype_val node.parts, List.flatMap_map]
  | closed => rfl
  | unresolved => rfl

/-- The visits of a structure and its parts. -/
def survey (scope : Scope) (content : Structure) : List Visit := content.surveyFrom scope [] []

end Structure

namespace Visit

/-- The kinds of issue that a visit raises. -/
def issueKinds (scope : Scope) (visit : Visit) : List IssueKind :=
  match visit.finding with
  | .closed =>
    if !visit.isInArray && visit.content.hasBoundary scope then [.recursiveBoundary] else []
  | .unresolved => [.unresolvedDeferred]
  | .found node =>
    (match node.explicit? with
    | some value =>
      if visit.content.conform scope value = some value then [] else [.defaultMismatch]
    | none => []) ++
    if node.isBoundary && visit.isInArray then [.boundaryInArray] else []

/-- The issues that a visit raises. -/
def issues (scope : Scope) (visit : Visit) : List Issue :=
  (visit.issueKinds scope).map fun kind => ⟨kind, visit.path⟩

/-- The events of checking the default that is declared at a position. -/
def events (scope : Scope) (visit : Visit) : List Event :=
  match visit.finding with
  | .found node =>
    match node.explicit? with
    | some value => (visit.content.rejections scope value).map (·.event)
    | none => []
  | _ => []

end Visit

namespace Structure

/-- The issues of a structure, in the order of the survey. -/
def audit (scope : Scope) (content : Structure) : List Issue :=
  (content.survey scope).flatMap (·.issues scope)

/-- The events of the audit. -/
def auditEvents (scope : Scope) (content : Structure) : List Event :=
  (content.survey scope).flatMap (·.events scope)

end Structure

end StateSlice
