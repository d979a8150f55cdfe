import StateSlice.Proofs.Walks

/-!
# What a survey visits

A survey is a list of visits; here it is told as a walk that goes on from where it is. The walk is
at a place of its structure, with the deferrals open that it has entered on its way, and goes on to
a part of the node that it finds there. A label that is open was entered at an earlier place of the
same way, and a node was found there. An audit without issues has none at any place of the walk.
-/
namespace StateSlice

namespace Structure

variable {scope : Scope} {root : Structure}

/-- A walk through a structure, with some deferrals open, is at a place to which a path has led. -/
inductive Visits (scope : Scope) (root : Structure) : Opened → List Place → Structure → Prop
  /-- The walk starts at the structure. -/
  | root : Visits scope root [] [] root
  /-- From a node that is found the walk goes on to each part of it. -/
  | part {opened : Opened} {path : List Place} {place : Structure} {node : Node}
      {part : Place × Structure} :
      Visits scope root opened path place → place.find scope opened = .found node →
      part ∈ node.parts → Visits scope root (place.opening opened) (path ++ [part.1]) part.2

namespace Visits

variable {opened : Opened} {path : List Place} {place : Structure}

/-- The survey of a structure contains the surveys of the places of the walk. -/
theorem surveyFrom_subset (visits : Visits scope root opened path place) :
    place.surveyFrom scope opened path ⊆ root.survey scope := by
  induction visits with
  | root => exact List.Subset.refl _
  | part _ found member hypothesis =>
    exact List.Subset.trans (surveyFrom_part_subset found member) hypothesis

/-- What is visited from a place of the walk on is a place of the walk. -/
theorem of_mem_surveyFrom {visit : Visit} {opened : Opened} {path : List Place}
    {place : Structure} (visits : Visits scope root opened path place)
    (member : visit ∈ place.surveyFrom scope opened path) :
    ∃ opened, Visits scope root opened visit.path visit.content ∧
      visit.finding = visit.content.find scope opened := by
  rw [place.surveyFrom_eq] at member
  rcases List.mem_cons.1 member with rfl | below
  · exact ⟨opened, visits, rfl⟩
  · cases found : place.find scope opened with
    | found node =>
      simp only [found] at below
      obtain ⟨part, among, visited⟩ := List.mem_flatMap.1 below
      exact of_mem_surveyFrom (visits.part found among) visited
    | closed => simp [found] at below
    | unresolved => simp [found] at below
termination_by (maxHops - opened.length, sizeOf place)
decreasing_by exact walk_decreases found (Node.sizeOf_lt_of_mem_parts among)

/-- A label that is open was entered before, on the way to where the walk is. -/
theorem exists_before_of_mem {label : Nat} (visits : Visits scope root opened path place)
    (member : some label ∈ opened) :
    ∃ fewer before node, before <+: path ∧
      Visits scope root fewer before (.deferred (.named label)) ∧
      (Structure.deferred (.named label)).find scope fewer = .found node := by
  induction visits with
  | root => exact absurd member List.not_mem_nil
  | @part opened path place node part earlier found _ hypothesis =>
    rcases mem_opening_iff.1 member with rfl | outer
    · exact ⟨opened, path, node, List.prefix_append _ _, earlier, found⟩
    · obtain ⟨fewer, before, entered, ahead, visited, known⟩ := hypothesis outer
      exact ⟨fewer, before, entered, ahead.trans (List.prefix_append _ _), visited, known⟩

/-- No more deferrals are open than steps have been made. -/
theorem length_opened_le (visits : Visits scope root opened path place) :
    opened.length ≤ path.length := by
  induction visits with
  | root => exact Nat.le_refl _
  | @part opened path place node part _ found _ hypothesis =>
    rw [length_opening, List.length_append, List.length_singleton]
    split <;> omega

/-- In an audit without issues a place of the walk raises none. -/
theorem issueKinds_eq_nil (clean : root.audit scope = [])
    (visits : Visits scope root opened path place) :
    Visit.issueKinds scope ⟨path, place, place.find scope opened⟩ = [] := by
  have visited := visits.surveyFrom_subset (visit_mem_surveyFrom scope opened path place)
  exact audit_eq_nil_iff.1 clean _ visited

/-- In an audit without issues no place of the walk is unresolved. -/
theorem find_ne_unresolved (clean : root.audit scope = [])
    (visits : Visits scope root opened path place) : place.find scope opened ≠ .unresolved := by
  intro found
  have quiet := visits.issueKinds_eq_nil clean
  simp [Visit.issueKinds, found] at quiet

end Visits

/-- The survey of a structure consists of the places of the walk, each with what is found there. -/
theorem mem_survey_iff {visit : Visit} :
    visit ∈ root.survey scope ↔ ∃ opened, Visits scope root opened visit.path visit.content ∧
      visit.finding = visit.content.find scope opened := by
  constructor
  · exact Visits.root.of_mem_surveyFrom
  · rintro ⟨opened, visits, finding⟩
    have visited := visit_mem_surveyFrom scope opened visit.path visit.content
    rw [← finding] at visited
    exact visits.surveyFrom_subset visited

end Structure

end StateSlice
