import Mathlib.Data.List.Dedup
import Mathlib.Data.List.Perm.Subperm
import StateSlice.Proofs.AuditedCompilation
import StateSlice.Proofs.Descents

/-!
# Structures with few deferrals

If no more different deferrals can be met than may be open, the limit hides nothing. The audit meets
no label again on its way through positions that are compiled, so it opens different deferrals only,
and the limit never stops it there: what passed the audit is compiled to the end. A way to a
boundary can be shortened until its deferrals are different, so a search for a boundary finds
whatever there is to be found.
-/
namespace StateSlice

namespace Opened

variable {fewer opened : Opened}

/-- How many different deferrals there are among some: a label counts once, and a deferral without a
label is the same as no other. -/
def different (opened : Opened) : Nat := opened.count none + opened.labels.dedup.length

/-- Every deferral has a label or has none. -/
theorem length_eq (opened : Opened) : opened.length = opened.count none + opened.labels.length := by
  induction opened with
  | nil => rfl
  | cons identity opened hypothesis =>
    rw [labels] at hypothesis
    cases identity with
    | none => simp [labels, hypothesis, Nat.add_right_comm]
    | some label => simp [labels, hypothesis, Nat.add_assoc]

/-- Deferrals among which no label is twice are at most as many as there are different ones among
deferrals that contain them. -/
theorem length_le_different (apart : fewer.labels.Nodup) (among : List.Subperm fewer opened) :
    fewer.length ≤ opened.different := by
  have unlabelled : fewer.count none ≤ opened.count none := among.count_le none
  have inside : fewer.labels ⊆ opened.labels.dedup := by
    intro label member
    have met : some label ∈ opened := among.subset (mem_labels_iff.1 member)
    exact List.mem_dedup.2 (mem_labels_iff.2 met)
  have labelled : fewer.labels.length ≤ opened.labels.dedup.length :=
    (List.subperm_of_subset apart inside).length_le
  calc
    fewer.length = fewer.count none + fewer.labels.length := length_eq fewer
    _ ≤ opened.different := Nat.add_le_add unlabelled labelled

/-- Among deferrals that all have one of some labels there are no more different ones than
labels. -/
theorem different_le_of_labels {known : List Nat} (named : opened ⊆ known.map some) :
    opened.different ≤ known.length := by
  have labelled : opened.count none = 0 := by
    apply List.count_eq_zero.2
    intro member
    simpa using named member
  have inside : opened.labels.dedup ⊆ known := by
    intro label member
    have met : some label ∈ opened := mem_labels_iff.1 (List.mem_dedup.1 member)
    simpa using named met
  have less : opened.labels.dedup.length ≤ known.length :=
    (List.subperm_of_subset (List.nodup_dedup _) inside).length_le
  rw [different, labelled, Nat.zero_add]
  exact less

end Opened

namespace Structure

variable {scope : Scope} {root content position below : Structure} {opened met : Opened}

/-- A way through the parts of nodes comes from a structure to a position. The deferrals that it has
entered before are listed, the last one first. -/
inductive Reaches (scope : Scope) (root : Structure) : Opened → Structure → Prop
  /-- The way starts at the structure. -/
  | root : Reaches scope root [] root
  /-- The way goes on to a part of the node of a position. -/
  | part {opened : Opened} {position : Structure} {node : Node} {part : Place × Structure} :
      Reaches scope root opened position → position.resolve? scope = some node →
      part ∈ node.parts → Reaches scope root (position.opening opened) part.2

/-- On no way from a structure more different deferrals are met than a limit. This is so in
particular if no more of them can be reached at all. -/
def MeetsAtMost (scope : Scope) (limit : Nat) (root : Structure) : Prop :=
  ∀ opened position, Reaches scope root opened position →
    (position.opening opened).different ≤ limit

/-- If the deferrals of what can be reached are all named by labels of a list, there are no more
different ones than labels in the list. -/
theorem meetsAtMost_of_labels {limit : Nat} {reached : Structure → Prop} (known : List Nat)
    (few : known.length ≤ limit) (start : reached root)
    (goesOn : ∀ position node part, reached position → position.resolve? scope = some node →
      part ∈ node.parts → reached part.2)
    (named : ∀ deferral, reached (.deferred deferral) → ∃ label ∈ known, deferral = .named label) :
    root.MeetsAtMost scope limit := by
  have enters {position : Structure} {opened : Opened} (inside : reached position)
      (before : opened ⊆ known.map some) : position.opening opened ⊆ known.map some := by
    cases position with
    | ready node => exact before
    | deferred deferral =>
      obtain ⟨label, listed, rfl⟩ := named deferral inside
      exact List.cons_subset.2 ⟨List.mem_map_of_mem listed, before⟩
  intro opened position reaches
  have along : reached position ∧ position.opening opened ⊆ known.map some := by
    induction reaches with
    | root => exact ⟨start, enters start (List.nil_subset _)⟩
    | part _ resolves member hypothesis =>
      have next := goesOn _ _ _ hypothesis.1 resolves member
      exact ⟨next, enters next hypothesis.2⟩
  exact Nat.le_trans (Opened.different_le_of_labels along.2) few

/-- Where the walk of an audit is, there a way comes. -/
theorem Visits.reaches {path : List Place} (visits : Visits scope root opened path position) :
    Reaches scope root opened position := by
  induction visits with
  | root => exact .root
  | part _ found member hypothesis => exact .part hypothesis (resolve?_of_find found) member

/-- In a clean audit, where the audit follows what is compiled no label is open twice. -/
theorem Follows.nodup_labels (clean : root.audit scope = [])
    (follows : Follows scope root opened position below) :
    (Opened.labels (below.opening opened)).Nodup := by
  induction follows with
  | root => exact nodup_labels_opening List.nodup_nil fun label _ => List.not_mem_nil
  | inside before found hypothesis =>
    have now : Follows scope root _ _ _ := .inside before found
    exact nodup_labels_opening hypothesis fun label same member =>
      now.ne_of_opened clean member same
  | child before found among bounded hypothesis =>
    have now : Follows scope root _ _ _ := .child before found among bounded
    exact nodup_labels_opening hypothesis fun label same member =>
      now.ne_of_opened clean member same

/-- If no more different deferrals are met than may be open, the limit does not stop a clean audit
inside the boundaries around a position that is compiled. -/
theorem not_stopsInside (clean : root.audit scope = []) (few : root.MeetsAtMost scope maxHops)
    (position : Structure) : ¬ StopsInside scope root position := by
  rintro ⟨opened, place, follows, deferred, full⟩
  obtain ⟨path, -, visits⟩ := follows.exists_visits
  have bound : (place.opening opened).different ≤ maxHops := few opened place visits.reaches
  have apart := follows.nodup_labels clean
  have length : (place.opening opened).length ≤ (place.opening opened).different :=
    Opened.length_le_different apart (List.Subperm.refl _)
  rw [length_opening, if_pos deferred] at length
  omega

/-- If no more different deferrals are met than may be open, what passed the audit is compiled, at
every mount. -/
theorem exists_compile (clean : content.audit scope = []) (few : content.MeetsAtMost scope maxHops)
    (mount : Mount) : ∃ tree, content.compile scope mount = some (.ok tree) := by
  have stopped (position : Structure) (stops : StopsInside scope content position) :
      Acc (GoesOn scope) position := absurd stops (not_stopsInside clean few position)
  have accessible : Acc (GoesOn scope) content := Follows.acc clean stopped .root
  exact exists_compileAs accessible true mount

/-- A way that comes to a position goes on down named children, and the deferrals on the way are
those before and those that are met then. -/
theorem Reaches.exists_descends (reaches : Reaches scope root opened content)
    (descends : Descends scope content met below) :
    ∃ further, Reaches scope root further below ∧
      (below.opening further).Perm (met ++ opened) := by
  induction descends generalizing opened with
  | @here content => exact ⟨opened, reaches, (content.opening_append_perm [] opened).symm⟩
  | @child content child below node name met resolves among _ hypothesis =>
    have next := reaches.part resolves (Node.mem_parts_of_mem_children among)
    obtain ⟨further, arrives, same⟩ := hypothesis next
    exact ⟨further, arrives, same.trans (content.opening_append_perm met opened).symm⟩

/-- If no more different deferrals are met than may be open, a search that starts at a position
finds a boundary exactly if named children lead to one, on however long a way. -/
theorem hasBoundary_iff_of_reaches (few : root.MeetsAtMost scope maxHops)
    (reaches : Reaches scope root opened content) :
    content.hasBoundary scope = true ↔ ∃ met, content.LeadsToBoundary scope met := by
  constructor
  · intro bounded
    obtain ⟨met, leads, -⟩ := exists_leadsToBoundary bounded (Nat.zero_le maxHops)
    exact ⟨met, leads⟩
  · rintro ⟨met, below, inner, descends, boundary⟩
    obtain ⟨fewer, shorter, different, -⟩ := descends.exists_different
    obtain ⟨further, arrives, same⟩ := reaches.exists_descends shorter
    have among : List.Subperm fewer (below.opening further) :=
      (List.sublist_append_left fewer opened).subperm.trans same.symm.subperm
    have room : fewer.length ≤ maxHops :=
      Nat.le_trans (Opened.length_le_different different among) (few further below arrives)
    have apart : (Opened.labels (fewer ++ [])).Nodup := by rwa [List.append_nil]
    exact shorter.reachesBoundary boundary apart room

/-- Ways come to the children of what is seen through the boundaries of a position. -/
theorem Reaches.exists_child {looks : Nat} {name : String} {child : Structure}
    (reaches : Reaches scope root opened position)
    (member : (name, child) ∈ ((position.resolve scope).lookThrough scope looks).children) :
    ∃ further, Reaches scope root further child := by
  induction looks generalizing opened position with
  | zero => exact absurd member List.not_mem_nil
  | succ looks hypothesis =>
    cases resolved : position.resolve? scope with
    | none =>
      rw [resolve, resolved] at member
      exact absurd member List.not_mem_nil
    | some node =>
      rw [resolve, resolved, Option.getD_some] at member
      by_cases boundary : node.isBoundary
      · cases node with
        | boundary inner => exact hypothesis (reaches.part resolved List.mem_cons_self) member
        | _ => simp [Node.isBoundary] at boundary
      · rw [Node.lookThrough_eq_self scope (by simpa using boundary)] at member
        exact ⟨_, reaches.part resolved (Node.mem_parts_of_mem_children member)⟩

end Structure

end StateSlice
