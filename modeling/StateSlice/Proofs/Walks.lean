import Mathlib.Logic.Relation
import StateSlice.Audit
import StateSlice.Proofs.Resolution

/-!
# What walks pass

What a walk enters it enters as well when fewer deferrals are open, and it finds the same there. So
the search for a boundary that starts anew at a position reaches at least what the same search
reaches on its way from further out. The survey of a structure contains the surveys of the parts of
every node that it finds, and a clean audit means that no visit of it raises an issue.
-/
namespace StateSlice

/-- Steps go on forever from where they can come back to. -/
theorem not_acc_of_transGen {α : Type} {step : α → α → Prop} {item : α}
    (again : Relation.TransGen step item item) : ¬ Acc step item := by
  intro accessible
  have transitive := acc_transGen_iff.2 accessible
  clear accessible
  induction transitive with
  | intro item _ hypothesis => exact hypothesis item again again

/-- A deferral that is closed when fewer are open is closed. -/
theorem Deferral.isClosedTo_of_fewer {deferral : Deferral} {fewer opened : Opened}
    (inside : fewer ⊆ opened) (shorter : fewer.length ≤ opened.length)
    (closed : deferral.isClosedTo fewer = true) : deferral.isClosedTo opened = true := by
  simp only [isClosedTo, Bool.or_eq_true, Bool.and_eq_true, List.contains_iff_mem,
    decide_eq_true_eq] at closed ⊢
  rcases closed with ⟨identified, member⟩ | full
  · exact .inl ⟨identified, inside member⟩
  · have still : maxHops ≤ opened.length := by omega
    exact .inr still

/-- The named children of a node are parts of it. -/
theorem Node.mem_parts_of_mem_children {node : Node} {name : String} {child : Structure}
    (member : (name, child) ∈ node.children) : (Place.child name, child) ∈ node.parts := by
  cases node with
  | shape children wildcard explicit =>
    exact List.mem_append_left _ (List.mem_map.2 ⟨(name, child), member, rfl⟩)
  | _ => simp [children] at member

namespace Structure

variable {scope : Scope} {content : Structure} {opened fewer : Opened}

/-- The labels that are open in a structure are open around it, or the structure stands for one. -/
theorem mem_opening_iff {label : Nat} :
    some label ∈ content.opening opened ↔
      content = .deferred (.named label) ∨ some label ∈ opened := by
  cases content with
  | ready node => simp [opening]
  | deferred deferral => cases deferral <;> simp [opening, Deferral.identity, eq_comm]

/-- Entering a structure opens one deferral more if it is deferred. -/
theorem length_opening (content : Structure) (opened : Opened) :
    (content.opening opened).length = opened.length + if content.isDeferred then 1 else 0 := by
  cases content <;> simp [opening, isDeferred]

/-- What is not entered is open already, or all the room for deferrals is taken. -/
theorem closed_cases (closed : content.find scope opened = .closed) :
    (∃ label, content = .deferred (.named label) ∧ some label ∈ opened) ∨
      content.isDeferred = true ∧ maxHops ≤ opened.length := by
  cases content with
  | ready node => simp [find] at closed
  | deferred deferral =>
    have shut : deferral.isClosedTo opened = true := by
      by_cases shut : deferral.isClosedTo opened
      · exact shut
      · cases resolved : (Structure.deferred deferral).resolve? scope <;>
          simp [find, shut, resolved] at closed
    simp only [Deferral.isClosedTo, Bool.or_eq_true, Bool.and_eq_true, List.contains_iff_mem,
      decide_eq_true_eq] at shut
    rcases shut with ⟨identified, member⟩ | full
    · cases deferral with
      | named label => exact .inl ⟨label, rfl, member⟩
      | _ => simp [Deferral.identity] at identified
    · exact .inr ⟨rfl, full⟩

/-- Where all the room for deferrals is taken no deferral is entered. -/
theorem find_of_full {deferral : Deferral} (full : maxHops ≤ opened.length) :
    (Structure.deferred deferral).find scope opened = .closed := by
  have shut : deferral.isClosedTo opened = true := by simp [Deferral.isClosedTo, full]
  rw [find, if_pos shut]

/-- A node that is deferred once is found while there is room. -/
theorem find_lazily (scope : Scope) {opened : Opened} (room : opened.length < maxHops)
    (node : Node) : (lazily (.ready node)).find scope opened = .found node := by
  have entered : (Deferral.held (.ready node)).isClosedTo opened = false := by
    simp [Deferral.isClosedTo, Deferral.identity, room]
  rw [lazily, find, entered]
  rfl

/-- What is found at a structure is reached from it within the limit on hops. -/
theorem resolve?_of_find {node : Node} (found : content.find scope opened = .found node) :
    content.resolve? scope = some node := by
  cases content with
  | ready own => simpa [find] using found
  | deferred deferral =>
    rw [find] at found
    by_cases closed : deferral.isClosedTo opened
    · simp [closed] at found
    · cases resolved : (Structure.deferred deferral).resolve? scope with
      | none => simp [closed, resolved] at found
      | some own =>
        have same : own = node := by simpa [closed, resolved] using found
        rw [same]

/-- What is found unresolved resolves to no node. -/
theorem resolve?_of_unresolved {opened : Opened}
    (found : content.find scope opened = .unresolved) : content.resolve? scope = none := by
  cases content with
  | ready own => simp [find] at found
  | deferred deferral =>
    rw [find] at found
    split at found
    · cases found
    · split at found
      · cases found
      · next unresolved => exact unresolved

/-- What is found at a structure is what the structure resolves to. -/
theorem resolve_of_find {node : Node} (found : content.find scope opened = .found node) :
    content.resolve scope = node := by
  rw [resolve, resolve?_of_find found, Option.getD_some]

/-- What is found at a structure is found there as well when fewer deferrals are open. -/
theorem find_of_fewer {node : Node} (inside : fewer ⊆ opened)
    (shorter : fewer.length ≤ opened.length) (found : content.find scope opened = .found node) :
    content.find scope fewer = .found node := by
  cases content with
  | ready own => exact found
  | deferred deferral =>
    by_cases closed : deferral.isClosedTo fewer
    · have still := Deferral.isClosedTo_of_fewer inside shorter closed
      simp [find, still] at found
    · by_cases before : deferral.isClosedTo opened
      · simp [find, before] at found
      · simpa [find, before, closed] using found

/-- A boundary that is reached is reached as well when fewer deferrals are open. -/
theorem reachesBoundary_of_fewer (inside : fewer ⊆ opened) (shorter : fewer.length ≤ opened.length)
    (reaches : content.reachesBoundary scope opened = true) :
    content.reachesBoundary scope fewer = true := by
  induction opened, content using reachesBoundary.induct scope generalizing fewer with
  | case1 opened content node found hypothesis =>
    rw [reachesBoundary_eq, found] at reaches
    rw [reachesBoundary_eq, find_of_fewer inside shorter found]
    simp only [Bool.or_eq_true, List.any_eq_true] at reaches ⊢
    rcases reaches with boundary | ⟨child, member, reaches⟩
    · exact .inl boundary
    · refine .inr ⟨child, member, hypothesis ⟨child, member⟩ ?_ ?_ reaches⟩
      · cases content with
        | ready own => exact inside
        | deferred deferral => exact List.cons_subset_cons _ inside
      · cases content with
        | ready own => exact shorter
        | deferred deferral => simpa [opening] using shorter
  | case2 opened content other =>
    rw [reachesBoundary_eq] at reaches
    split at reaches
    · next node found => exact absurd found (other node)
    · simp at reaches

/-- A search that starts at a position reaches what a search on its way reaches from there. -/
theorem hasBoundary_of_reachesBoundary (reaches : content.reachesBoundary scope opened = true) :
    content.hasBoundary scope = true :=
  reachesBoundary_of_fewer (List.nil_subset opened) (Nat.zero_le opened.length) reaches

/-- A search that finds a boundary reaches one. -/
theorem reachesBoundary_of_boundary {inner : Structure}
    (found : content.find scope opened = .found (.boundary inner)) :
    content.reachesBoundary scope opened = true := by
  rw [reachesBoundary_eq, found]
  rfl

/-- A search that reaches a boundary from a child of what it finds reaches one. -/
theorem reachesBoundary_of_child {node : Node} {name : String} {child : Structure}
    (found : content.find scope opened = .found node) (member : (name, child) ∈ node.children)
    (reaches : child.reachesBoundary scope (content.opening opened) = true) :
    content.reachesBoundary scope opened = true := by
  rw [reachesBoundary_eq, found]
  have among : node.children.any (fun child =>
      child.2.reachesBoundary scope (content.opening opened)) = true :=
    List.any_eq_true.2 ⟨(name, child), member, reaches⟩
  simp only [among, Bool.or_true]

/-- A node at hand is searched without a deferral being opened. -/
@[simp]
theorem reachesBoundary_ready (scope : Scope) (opened : Opened) (node : Node) :
    (Structure.ready node).reachesBoundary scope opened =
      (node.isBoundary || node.children.any fun child =>
        child.2.reachesBoundary scope opened) := by
  rw [reachesBoundary_eq]
  rfl

/-- There is no boundary where a node is found that is none and has no named children. -/
theorem hasBoundary_of_find {node : Node} (found : content.find scope [] = .found node)
    (plain : node.isBoundary = false) (none : node.children = []) :
    content.hasBoundary scope = false := by
  rw [hasBoundary, reachesBoundary_eq, found]
  simp [plain, none]

/-- A node at hand is surveyed without a deferral being opened. -/
@[simp]
theorem surveyFrom_ready (scope : Scope) (opened : Opened) (path : List Place) (node : Node) :
    (Structure.ready node).surveyFrom scope opened path = ⟨path, .ready node, .found node⟩ ::
      node.parts.flatMap fun part => part.2.surveyFrom scope opened (path ++ [part.1]) := by
  rw [surveyFrom_eq]
  rfl

/-- A survey visits where it starts. -/
theorem visit_mem_surveyFrom (scope : Scope) (opened : Opened) (path : List Place)
    (content : Structure) :
    ⟨path, content, content.find scope opened⟩ ∈ content.surveyFrom scope opened path := by
  rw [surveyFrom_eq]
  exact List.mem_cons_self

/-- A survey contains the surveys of the parts of what it finds. -/
theorem surveyFrom_part_subset {path : List Place} {node : Node} {part : Place × Structure}
    (found : content.find scope opened = .found node) (member : part ∈ node.parts) :
    part.2.surveyFrom scope (content.opening opened) (path ++ [part.1]) ⊆
      content.surveyFrom scope opened path := by
  intro visit visited
  rw [content.surveyFrom_eq, found]
  exact List.mem_cons_of_mem _ (List.mem_flatMap.2 ⟨part, member, visited⟩)

/-- An audit without issues is one in which no visit raises any. -/
theorem audit_eq_nil_iff :
    content.audit scope = [] ↔ ∀ visit ∈ content.survey scope, visit.issueKinds scope = [] := by
  simp [audit, Visit.issues]

end Structure

end StateSlice
