import StateSlice.Proofs.Compilation
import StateSlice.Proofs.Visits

/-!
# Compiling what passed the audit

The audit follows the positions that are compiled one by one, through the boundaries around each
of them. An audit without issues never meets again a deferral that it has open on its way, for that
deferral would have a boundary on the way back to itself. So where compiling goes on forever the
audit must have been stopped by the limit on open deferrals, and it is stopped without an issue if
the boundary that comes next is out of the reach of a search that starts there.
-/
namespace StateSlice

namespace Structure

variable {scope : Scope} {root : Structure}

/-- The audit of a structure, with some deferrals open, is at a place inside the boundaries around a
position that is compiled. -/
inductive Follows (scope : Scope) (root : Structure) : Opened → Structure → Structure → Prop
  /-- The structure as a whole is compiled. -/
  | root : Follows scope root [] root root
  /-- The audit goes into a boundary around the position. -/
  | inside {opened : Opened} {position place inner : Structure} :
      Follows scope root opened position place →
      place.find scope opened = .found (.boundary inner) →
      Follows scope root (place.opening opened) position inner
  /-- The audit is at the inner node of the position and goes to a child that is compiled. -/
  | child {opened : Opened} {position place child : Structure} {name : String} :
      Follows scope root opened position place →
      place.find scope opened = .found (position.inner scope) →
      (name, child) ∈ (position.inner scope).children → child.hasBoundary scope = true →
      Follows scope root (place.opening opened) child child

/-- The audit of a structure is stopped by the limit on open deferrals inside the boundaries around
a position that is compiled. -/
def StopsInside (scope : Scope) (root position : Structure) : Prop :=
  ∃ opened place, Follows scope root opened position place ∧ place.isDeferred = true ∧
    maxHops ≤ opened.length

namespace Follows

variable {opened : Opened} {position place : Structure}

/-- Where the audit follows, its walk has come in no array. -/
theorem exists_visits (follows : Follows scope root opened position place) :
    ∃ path, Place.element ∉ path ∧ Visits scope root opened path place := by
  induction follows with
  | root => exact ⟨[], List.not_mem_nil, .root⟩
  | @inside opened position place inner _ found hypothesis =>
    obtain ⟨path, outside, visits⟩ := hypothesis
    have part : (Place.inside, inner) ∈ (Node.boundary inner).parts := List.mem_singleton_self _
    exact ⟨path ++ [.inside], by simpa using outside, visits.part found part⟩
  | @child opened position place child name _ found member _ hypothesis =>
    obtain ⟨path, outside, visits⟩ := hypothesis
    have part : (Place.child name, child) ∈ (position.inner scope).parts :=
      Node.mem_parts_of_mem_children member
    exact ⟨path ++ [.child name], by simpa using outside, visits.part found part⟩

/-- What a place inside a position is found to be is the inner node of the position, unless looking
through its boundaries ends at the placeholder. -/
theorem inner_eq_lookThrough (follows : Follows scope root opened position place) :
    ∃ looks, position.inner scope = (place.resolve scope).lookThrough scope looks := by
  induction follows with
  | root => exact ⟨_, rfl⟩
  | @inside opened position place inner _ found hypothesis =>
    obtain ⟨looks, known⟩ := hypothesis
    rw [resolve_of_find found] at known
    cases looks with
    | zero => exact ⟨0, by simpa only [Node.lookThrough] using known⟩
    | succ looks => exact ⟨looks, known⟩
  | child => exact ⟨_, rfl⟩

/-- A deferral that is open has a boundary, unless the audit is at a position that has one itself
and is reached from the deferral without a boundary between. -/
theorem hasBoundary_of_opened (follows : Follows scope root opened position place) {label : Nat}
    (member : some label ∈ opened) :
    (Structure.deferred (.named label)).hasBoundary scope = true ∨
      place.hasBoundary scope = true ∧ (place.reachesBoundary scope opened = true →
        (Structure.deferred (.named label)).hasBoundary scope = true) := by
  induction follows with
  | root => exact absurd member List.not_mem_nil
  | @inside opened position place inner _ found hypothesis =>
    left
    have reaches := reachesBoundary_of_boundary found
    rcases mem_opening_iff.1 member with rfl | earlier
    · exact hasBoundary_of_reachesBoundary reaches
    · rcases hypothesis earlier with known | ⟨-, back⟩
      · exact known
      · exact back reaches
  | @child opened position place child name _ found among bounded hypothesis =>
    rcases mem_opening_iff.1 member with rfl | earlier
    · refine .inr ⟨bounded, fun reaches => ?_⟩
      exact hasBoundary_of_reachesBoundary (reachesBoundary_of_child found among reaches)
    · rcases hypothesis earlier with known | ⟨-, back⟩
      · exact .inl known
      · exact .inr ⟨bounded, fun reaches => back (reachesBoundary_of_child found among reaches)⟩

/-- In a clean audit nothing that the audit follows is found unresolved. -/
theorem find_ne_unresolved (clean : root.audit scope = [])
    (follows : Follows scope root opened position place) :
    place.find scope opened ≠ .unresolved := by
  obtain ⟨path, -, visits⟩ := follows.exists_visits
  exact visits.find_ne_unresolved clean

/-- In a clean audit no label is met again that is open where the audit follows: what it stands for
would have a boundary in any case, and that would be an issue. -/
theorem ne_of_opened (clean : root.audit scope = [])
    (follows : Follows scope root opened position place) {label : Nat}
    (member : some label ∈ opened) : place ≠ .deferred (.named label) := by
  rintro rfl
  have bounded : (Structure.deferred (.named label)).hasBoundary scope = true := by
    rcases follows.hasBoundary_of_opened member with bounded | ⟨bounded, -⟩ <;> exact bounded
  have shut : (Deferral.named label).isClosedTo opened = true := by
    simp [Deferral.isClosedTo, Deferral.identity, member]
  have closed : (Structure.deferred (.named label)).find scope opened = .closed := by
    rw [find, if_pos shut]
  obtain ⟨path, outside, visits⟩ := follows.exists_visits
  have quiet := visits.issueKinds_eq_nil clean
  simp [Visit.issueKinds, Visit.isInArray, closed, outside, bounded] at quiet

/-- In a clean audit only the limit stops the audit where it follows. -/
theorem full_of_closed (clean : root.audit scope = [])
    (follows : Follows scope root opened position place)
    (closed : place.find scope opened = .closed) :
    place.isDeferred = true ∧ maxHops ≤ opened.length := by
  rcases closed_cases closed with ⟨label, same, member⟩ | full
  · exact absurd same (follows.ne_of_opened clean member)
  · exact full

/-- In a clean audit, compiling does not go on forever from where the audit follows unless it does
so from where the audit is stopped. -/
theorem acc {opened : Opened} {position place : Structure} (clean : root.audit scope = [])
    (stopped : ∀ position, StopsInside scope root position → Acc (GoesOn scope) position)
    (follows : Follows scope root opened position place) : Acc (GoesOn scope) position := by
  cases found : place.find scope opened with
  | unresolved => exact absurd found (follows.find_ne_unresolved clean)
  | closed => exact stopped position ⟨opened, place, follows, follows.full_of_closed clean found⟩
  | found node =>
    by_cases bounded : node.isBoundary
    · cases node with
      | boundary inner => exact acc clean stopped (follows.inside found)
      | _ => simp [Node.isBoundary] at bounded
    · obtain ⟨looks, known⟩ := follows.inner_eq_lookThrough
      rw [resolve_of_find found] at known
      refine ⟨_, fun next goesOn => ?_⟩
      obtain ⟨name, member, reaches⟩ := goesOn
      cases looks with
      | zero =>
        rw [known] at member
        exact absurd member List.not_mem_nil
      | succ looks =>
        have same : position.inner scope = node := by
          rw [known, Node.lookThrough_eq_self scope (by simpa using bounded)]
        exact acc clean stopped (follows.child (same ▸ found) member reaches)
termination_by (maxHops - opened.length, sizeOf place)
decreasing_by
  · exact walk_decreases found (by simp)
  · exact walk_decreases found (Node.sizeOf_lt_of_mem_children (same ▸ member))

/-- If compiling the structure does not go on forever, then neither does it from a position that
it comes to. -/
theorem acc_of_root (follows : Follows scope root opened position place)
    (accessible : Acc (GoesOn scope) root) : Acc (GoesOn scope) position := by
  induction follows with
  | root => exact accessible
  | inside _ _ hypothesis => exact hypothesis
  | child _ _ member bounded hypothesis => exact hypothesis.inv ⟨_, member, bounded⟩

end Follows

/-- What passed the audit is compiled to the end exactly if compiling ends from whatever it goes on
to behind the positions in whose boundaries the limit on open deferrals stopped the audit. In
particular it is if the limit stopped the audit at none. -/
theorem isSome_compile_iff_of_audit {scope : Scope} {content : Structure} (mount : Mount)
    (clean : content.audit scope = []) :
    (content.compile scope mount).isSome ↔
      ∀ position, StopsInside scope content position → ∀ next, GoesOn scope next position →
        (next.compile scope mount).isSome := by
  constructor
  · rintro ends position ⟨opened, place, follows, -, -⟩ next goesOn
    have accessible := isSome_compileAs_iff.1 ends
    exact isSome_compileAs_iff.2 ((follows.acc_of_root accessible).inv goesOn)
  · intro ends
    have stopped (position : Structure) (stops : StopsInside scope content position) :
        Acc (GoesOn scope) position :=
      ⟨_, fun next goesOn => isSome_compileAs_iff.1 (ends position stops next goesOn)⟩
    have accessible : Acc (GoesOn scope) content := Follows.acc clean stopped .root
    exact isSome_compileAs_iff.2 accessible

/-- The node at the place of a number on an endless chain: every sixty-fifth is a boundary around
the next place, and every other a shape with the next place as its child. -/
def chainNode (number : Nat) : Node :=
  if number % 65 = 64 then .boundary (.deferred (.fresh (number + 1)))
  else .shape [("a", .deferred (.fresh (number + 1)))] none none

/-- The scope in which a number stands for its place on the chain. -/
def chain : Scope := fun number => .reaches 0 (chainNode number)

/-- The place of a number on the chain. -/
def link (number : Nat) : Structure := .deferred (.fresh number)

/-- A place on the chain is entered while there is room. -/
theorem find_link (opened : Opened) (number : Nat) :
    (link number).find chain opened =
      if maxHops ≤ opened.length then .closed else .found (chainNode number) := by
  have closed : (Deferral.fresh number).isClosedTo opened = decide (maxHops ≤ opened.length) := rfl
  have resolved : (Structure.deferred (.fresh number)).resolve? chain = some (chainNode number) :=
    rfl
  rw [link, find, closed, resolved]
  by_cases full : maxHops ≤ opened.length <;> simp [full]

/-- The inner node of a place on the chain is the next shape. -/
theorem children_inner_link (number : Nat) :
    ((link number).inner chain).children =
      [("a", link (if number % 65 = 64 then number + 2 else number + 1))] := by
  have resolved (number : Nat) : (link number).resolve chain = chainNode number :=
    resolve_of_find (find_link [] number)
  rw [inner, resolved, chainNode]
  by_cases boundary : number % 65 = 64
  · have behind : ¬ (number + 1) % 65 = 64 := by omega
    have next : (Structure.deferred (.fresh (number + 1))).resolve chain = chainNode (number + 1) :=
      resolved (number + 1)
    rw [if_pos boundary, if_pos boundary, maxHops, Node.lookThrough, next, chainNode,
      if_neg behind, Node.lookThrough_eq_self chain rfl]
    rfl
  · rw [if_neg boundary, if_neg boundary, Node.lookThrough_eq_self chain rfl]
    rfl

/-- A search on the chain reaches a boundary if the next one is within its room. -/
theorem reachesBoundary_link (opened : Opened) (number : Nat) :
    (link number).reachesBoundary chain opened = true ↔
      ∃ steps, steps + opened.length < maxHops ∧ (number + steps) % 65 = 64 := by
  induction room : maxHops - opened.length generalizing opened number with
  | zero =>
    have full : maxHops ≤ opened.length := by omega
    rw [reachesBoundary_eq, find_link, if_pos full]
    refine ⟨fun reaches => absurd reaches Bool.false_ne_true, fun ⟨steps, inside, _⟩ => ?_⟩
    omega
  | succ room hypothesis =>
    have free : ¬ maxHops ≤ opened.length := by omega
    rw [reachesBoundary_eq, find_link, if_neg free]
    by_cases boundary : number % 65 = 64
    · have here : 0 + opened.length < maxHops := by omega
      refine ⟨fun _ => ⟨0, here, boundary⟩, fun _ => ?_⟩
      simp [chainNode, boundary, Node.isBoundary]
    · have later := hypothesis (none :: opened) (number + 1) (by simp; omega)
      simp only [chainNode, boundary, if_false, Node.isBoundary, Node.children, List.any_cons,
        List.any_nil, Bool.false_or, Bool.or_false]
      rw [show (link number).opening opened = none :: opened from rfl, List.length_cons] at *
      rw [show Structure.deferred (.fresh (number + 1)) = link (number + 1) from rfl, later]
      constructor
      · rintro ⟨steps, inside, reaches⟩
        exact ⟨steps + 1, by omega, by omega⟩
      · rintro ⟨steps, inside, reaches⟩
        have ahead : steps ≠ 0 := by
          rintro rfl
          exact boundary reaches
        exact ⟨steps - 1, by omega, by omega⟩

/-- A place on the chain has a boundary unless it is the one behind a boundary. -/
theorem hasBoundary_link (number : Nat) :
    (link number).hasBoundary chain = true ↔ number % 65 ≠ 0 := by
  rw [hasBoundary, reachesBoundary_link]
  simp only [List.length_nil, maxHops]
  constructor
  · rintro ⟨steps, room, boundary⟩
    omega
  · intro inside
    exact ⟨64 - number % 65, by omega, by omega⟩

/-- Compiling goes on forever from every place on the chain that has a boundary. -/
theorem not_acc_link {number : Nat} (inside : number % 65 ≠ 0) :
    ¬ Acc (GoesOn chain) (link number) := by
  intro accessible
  generalize same : link number = content at accessible
  induction accessible generalizing number with
  | intro content _ hypothesis =>
    subst same
    have member := children_inner_link number ▸ List.mem_singleton_self _
    refine hypothesis _ ⟨"a", member, (hasBoundary_link _).2 ?_⟩ ?_ rfl <;> split <;> omega

/-- The audit of the chain from its second place raises no issue: it is stopped at the place behind
a boundary. -/
theorem issueKinds_surveyFrom_link (opened : Opened) (path : List Place)
    (outside : Place.element ∉ path) (inside : opened.length ≤ maxHops) :
    ∀ visit ∈ (link (opened.length + 1)).surveyFrom chain opened path,
      visit.issueKinds chain = [] := by
  induction room : maxHops - opened.length generalizing opened path with
  | zero =>
    have full : maxHops ≤ opened.length := by omega
    have last : ¬ (opened.length + 1) % 65 ≠ 0 := by
      rw [show opened.length = 64 from Nat.le_antisymm inside full]
      decide
    have unbounded := mt (hasBoundary_link _).1 last
    rw [surveyFrom_eq, find_link, if_pos full]
    simp [Visit.issueKinds, unbounded]
  | succ room hypothesis =>
    have free : ¬ maxHops ≤ opened.length := by omega
    have later (place : Place) (plain : place ≠ .element) :=
      hypothesis (none :: opened) (path ++ [place]) (by simp [outside, plain.symm])
        (by simp; omega) (by simp; omega)
    rw [surveyFrom_eq, find_link, if_neg free]
    intro visit visited
    by_cases boundary : (opened.length + 1) % 65 = 64 <;>
      simp only [chainNode, boundary, if_true, if_false, Node.parts, List.map_cons, List.map_nil,
        Option.toList_none, List.append_nil, List.flatMap_cons, List.flatMap_nil,
        List.mem_cons] at visited <;> rcases visited with rfl | further
    · simp [Visit.issueKinds, Node.explicit?, Visit.isInArray, outside]
    · exact later .inside (by simp) visit further
    · simp [Visit.issueKinds, Node.explicit?, Node.isBoundary]
    · exact later (.child "a") (by simp) visit further

/-- From its second place the chain passes the audit, for the limit stops the audit in the
boundary, and it is compiled without end. -/
theorem link_audited_not_compiled :
    (link 1).audit chain = [] ∧ (link 1).compile chain ⟨.key "s", "s"⟩ = none ∧
      ∃ position next, StopsInside chain (link 1) position ∧ GoesOn chain next position ∧
        next.compile chain ⟨.key "s", "s"⟩ = none := by
  have clean : (link 1).audit chain = [] :=
    audit_eq_nil_iff.2 (issueKinds_surveyFrom_link [] [] (by simp) (by simp))
  have endless : ¬ ((link 1).compile chain ⟨.key "s", "s"⟩).isSome := fun ends =>
    not_acc_link (by decide) (isSome_compileAs_iff.1 ends)
  have stopped := mt (isSome_compile_iff_of_audit _ clean).2 endless
  simp only [not_forall] at stopped
  obtain ⟨position, stops, next, goesOn, fails⟩ := stopped
  exact ⟨clean, by simpa using endless, position, next, stops, goesOn, by simpa using fails⟩

end Structure

end StateSlice
