import StateSlice.Proofs.Visits

/-!
# Boundaries inside arrays

Arrays are leaves, so a boundary inside an array is ignored. Where such boundaries lie is a matter
of the unfolding of a structure, in which every deferral is followed as often as it is met. The
audit follows a deferral only while it is not open. A boundary that the audit does not meet is
reached through a place where the audit stops: for a label that the way entered outside all arrays
and meets again inside one, and for the limit on open deferrals. Nothing else hides a boundary from
it, since the way back to a label that was entered inside an array, or to one that is met again
outside, can be left out.
-/
namespace StateSlice

namespace Structure

/-- Following a structure leads to a node, after however many hops. -/
def LeadsTo (scope : Scope) (content : Structure) (node : Node) : Prop :=
  ∃ hops, content.landing scope = .reaches hops node

/-- In the unfolding of a structure a path leads to a position. -/
inductive Unfolds (scope : Scope) : Structure → List Place → Structure → Prop
  /-- The structure as a whole. -/
  | here {content : Structure} : Unfolds scope content [] content
  /-- A path goes on from a part of the node that the structure leads to. -/
  | part {content below : Structure} {node : Node} {part : Place × Structure} {path : List Place} :
      content.LeadsTo scope node → part ∈ node.parts → Unfolds scope part.2 path below →
      Unfolds scope content (part.1 :: path) below

/-- Behind a position, to which a path has led, lies a boundary that is inside an array: one that
the path has passed, or one on the way on. -/
def HidesBoundary (scope : Scope) (path : List Place) (content : Structure) : Prop :=
  ∃ more below inner, Unfolds scope content more below ∧ below.LeadsTo scope (.boundary inner) ∧
    Place.element ∈ path ++ more

/-- A boundary of the structure lies inside an array, where it is ignored. -/
def IgnoresBoundary (scope : Scope) (root : Structure) : Prop := root.HidesBoundary scope []

/-- A way into an array stands at a place that it has passed before, outside all arrays. -/
def ReturnsInside (scope : Scope) (root : Structure) (path : List Place) (place : Structure) :
    Prop :=
  Place.element ∈ path ∧ ∃ opened before, before <+: path ∧ Place.element ∉ before ∧
    Visits scope root opened before place

/-- The audit does not go on from a place behind which there is a boundary inside an array, because
the way has returned to the place inside an array, or for the limit on open deferrals. -/
def PassesOver (scope : Scope) (root : Structure) : Prop :=
  ∃ opened path place, Visits scope root opened path place ∧ place.HidesBoundary scope path ∧
    place.find scope opened = .closed ∧
    (root.ReturnsInside scope path place ∨ place.isDeferred = true ∧ maxHops ≤ opened.length)

variable {scope : Scope} {root content : Structure}

/-- A structure leads to one node. -/
theorem LeadsTo.eq {node other : Node} (leads : content.LeadsTo scope node)
    (also : content.LeadsTo scope other) : node = other := by
  obtain ⟨hops, landing⟩ := leads
  obtain ⟨others, same⟩ := also
  rw [landing] at same
  exact (Landing.reaches.inj same).2

/-- A structure leads to the node that it resolves to. -/
theorem leadsTo_of_resolve? {node : Node} (resolved : content.resolve? scope = some node) :
    content.LeadsTo scope node := by
  rw [resolve?] at resolved
  cases landed : content.landing scope with
  | endless => simp [landed, Landing.node?] at resolved
  | reaches hops own =>
    rw [landed, Landing.node?, Option.ite_none_right_eq_some] at resolved
    have same : own = node := Option.some.inj resolved.2
    exact ⟨hops, by rw [landed, same]⟩

/-- A structure leads to the node that a walk finds there. -/
theorem leadsTo_of_find {opened : Opened} {node : Node}
    (found : content.find scope opened = .found node) : content.LeadsTo scope node :=
  leadsTo_of_resolve? (resolve?_of_find found)

/-- A path that leads to a position is continued by a path that leads on from there. -/
theorem Unfolds.append {middle below : Structure} {path more : List Place}
    (first : Unfolds scope content path middle) (rest : Unfolds scope middle more below) :
    Unfolds scope content (path ++ more) below := by
  induction first with
  | here => exact rest
  | part leads member _ hypothesis => exact .part leads member (hypothesis rest)

/-- The places of the walk are positions of the unfolding. -/
theorem Visits.unfolds {opened : Opened} {path : List Place} {place : Structure}
    (visits : Visits scope root opened path place) : Unfolds scope root path place := by
  induction visits with
  | root => exact .here
  | part _ found member hypothesis =>
    exact hypothesis.append (.part (leadsTo_of_find found) member .here)

/-- In an audit without issues, where a way to a boundary inside an array goes on from a place of
the walk, the audit goes on along it from that place, from an earlier visit if need be, or passes
over the boundary. -/
theorem passesOver_or_enters {opened : Opened} {path more : List Place} {place below : Structure}
    {inner : Structure} (clean : root.audit scope = [])
    (visits : Visits scope root opened path place) (leads : Unfolds scope place more below)
    (boundary : below.LeadsTo scope (.boundary inner)) (inside : Place.element ∈ path ++ more) :
    root.PassesOver scope ∨ ∃ fewer before node, Visits scope root fewer before place ∧
      place.find scope fewer = .found node ∧ Place.element ∈ before ++ more := by
  have hides : place.HidesBoundary scope path := ⟨more, below, inner, leads, boundary, inside⟩
  cases found : place.find scope opened with
  | found node => exact .inr ⟨opened, path, node, visits, found, inside⟩
  | unresolved => exact absurd found (visits.find_ne_unresolved clean)
  | closed =>
    rcases closed_cases found with ⟨label, rfl, member⟩ | full
    · obtain ⟨fewer, before, node, ahead, entered, known⟩ := visits.exists_before_of_mem member
      by_cases already : Place.element ∈ before
      · exact .inr ⟨fewer, before, node, entered, known, List.mem_append_left _ already⟩
      · by_cases passed : Place.element ∈ path
        · have returns : root.ReturnsInside scope path (.deferred (.named label)) :=
            ⟨passed, fewer, before, ahead, already, entered⟩
          exact .inl ⟨opened, path, _, visits, hides, found, .inl returns⟩
        · have later : Place.element ∈ more := (List.mem_append.1 inside).resolve_left passed
          exact .inr ⟨fewer, before, node, entered, known, List.mem_append_right _ later⟩
    · exact .inl ⟨opened, path, place, visits, hides, found, .inr full⟩

/-- In an audit without issues, if a way to a boundary inside an array goes on from a place of the
walk, then the audit passes over such a boundary. -/
theorem passesOver_of_unfolds {opened : Opened} {path more : List Place}
    {place below inner : Structure} (clean : root.audit scope = [])
    (leads : Unfolds scope place more below) (boundary : below.LeadsTo scope (.boundary inner))
    (visits : Visits scope root opened path place) (inside : Place.element ∈ path ++ more) :
    root.PassesOver scope := by
  induction leads generalizing opened path with
  | @here place =>
    rcases passesOver_or_enters clean visits .here boundary inside with
      passed | ⟨fewer, before, node, entered, found, within⟩
    · exact passed
    · obtain rfl : node = .boundary inner := (leadsTo_of_find found).eq boundary
      have element : Place.element ∈ before := by simpa using within
      have quiet := entered.issueKinds_eq_nil clean
      simp [Visit.issueKinds, found, Node.explicit?, Node.isBoundary, Visit.isInArray,
        element] at quiet
  | @part place below node part more lands member further hypothesis =>
    rcases passesOver_or_enters clean visits (.part lands member further) boundary inside with
      passed | ⟨fewer, before, own, entered, found, within⟩
    · exact passed
    · obtain rfl : own = node := (leadsTo_of_find found).eq lands
      exact hypothesis boundary (entered.part found member) (by simpa using within)

/-- In a structure that passed the audit a boundary lies inside an array, where it is ignored,
exactly if the audit passes over one: if behind a place where the audit stops, because the way has
returned to the place inside an array or for the limit on open deferrals, there is a boundary inside
an array. In particular there is none if the audit stops at no such place. -/
theorem ignoresBoundary_iff_of_audit (clean : root.audit scope = []) :
    root.IgnoresBoundary scope ↔ root.PassesOver scope := by
  constructor
  · rintro ⟨more, below, inner, leads, boundary, inside⟩
    exact passesOver_of_unfolds clean leads boundary .root inside
  · rintro ⟨opened, path, place, visits, ⟨more, below, inner, leads, boundary, inside⟩, -, -⟩
    exact ⟨path ++ more, below, inner, visits.unfolds.append leads, boundary, inside⟩

/-- An item, by its label. -/
def item (label : Nat) : Structure := .deferred (.named label)

/-- The number of an item, in a boundary. -/
def ownNumber : Structure := .boundary (.scalar .number)

/-- The node of an item: it has items of its own, and its number. -/
def itemNode (label : Nat) : Node :=
  .shape [("items", .arrayOf (item label)), ("own", ownNumber)] none none

/-- The scope in which every label stands for an item. -/
def items : Scope := fun label => .reaches 0 (itemNode label)

/-- In the unfolding the number of an item lies inside the array of another. -/
theorem ignoresBoundary_item (label : Nat) : (item label).IgnoresBoundary items := by
  have lands : (item label).LeadsTo items (itemNode label) := ⟨1, rfl⟩
  have array : (Structure.arrayOf (item label)).LeadsTo items (.arrayOf (item label) none) :=
    ⟨0, rfl⟩
  have boundary : ownNumber.LeadsTo items (.boundary (.scalar .number)) := ⟨0, rfl⟩
  have toItems : (Place.child "items", Structure.arrayOf (item label)) ∈ (itemNode label).parts :=
    List.mem_cons_self
  have toNumber : (Place.child "own", ownNumber) ∈ (itemNode label).parts :=
    List.mem_cons_of_mem _ List.mem_cons_self
  have toItem : (Place.element, item label) ∈ (Node.arrayOf (item label) none).parts :=
    List.mem_cons_self
  have leads : Unfolds items (item label) [.child "items", .element, .child "own"] ownNumber :=
    .part lands toItems (.part array toItem (.part lands toNumber .here))
  exact ⟨_, _, _, leads, boundary, by decide⟩

/-- Items pass the audit, but the number of an item in the array of another is in a boundary that is
ignored: the audit meets the label of items again inside the array, where it is open since the
start. -/
theorem item_audited_ignored :
    (item 0).audit items = [] ∧ (item 0).IgnoresBoundary items ∧ (item 0).PassesOver items := by
  have entered : (item 0).find items [] = .found (itemNode 0) := rfl
  have opening : (item 0).opening [] = [some 0] := rfl
  have again (path : List Place) :
      (item 0).surveyFrom items [some 0] path = [⟨path, item 0, .closed⟩] := by
    have stopped : (item 0).find items [some 0] = .closed := rfl
    rw [surveyFrom_eq, stopped]
  have clean : (item 0).audit items = [] := by
    rw [audit_eq_nil_iff, survey, surveyFrom_eq, entered, opening]
    simp [itemNode, ownNumber, Node.parts, Structure.arrayOf, Structure.boundary,
      Structure.scalar, again, Visit.issueKinds, Node.explicit?, Node.isBoundary, Visit.isInArray]
  have ignored := ignoresBoundary_item 0
  exact ⟨clean, ignored, (ignoresBoundary_iff_of_audit clean).1 ignored⟩

end Structure

end StateSlice
