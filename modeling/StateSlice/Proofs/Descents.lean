import Mathlib.Data.List.Nodup
import StateSlice.Proofs.Walks

/-!
# Descents to boundaries

The search for a boundary does not enter a deferral that it has open. This hides no boundary: what a
label stands for is the same at every occurrence, so a way down that meets a label again can be
shortened, and on a way that meets no label twice nothing is closed to the search but by the limit.
So the search finds a boundary exactly if a way through named children leads to one on which no more
deferrals are met than may be open.
-/
namespace StateSlice

/-- The labels among deferrals. A deferral without a label is the same as no other. -/
def Opened.labels (opened : Opened) : List Nat := opened.filterMap id

/-- The labels among deferrals are those of the deferrals that have one. -/
theorem Opened.mem_labels_iff {label : Nat} {opened : Opened} :
    label ∈ opened.labels ↔ some label ∈ opened := by
  simp [labels]

namespace Structure

variable {scope : Scope} {content below : Structure} {opened met : Opened}

/-- What was open before is open when a structure is entered. -/
theorem suffix_opening (content : Structure) (opened : Opened) :
    opened <:+ content.opening opened := by
  cases content with
  | ready node => exact List.suffix_rfl
  | deferred deferral => exact List.suffix_cons _ _

/-- The same deferrals are open whether a structure is entered before others or after them. -/
theorem opening_append_perm (content : Structure) (met opened : Opened) :
    (content.opening met ++ opened).Perm (met ++ content.opening opened) := by
  cases content with
  | ready node => exact List.Perm.refl _
  | deferred deferral => exact List.perm_middle.symm

/-- Different deferrals stay different when a structure is entered whose label is not among them. -/
theorem nodup_labels_opening (different : (Opened.labels opened).Nodup)
    (new : ∀ label, content = .deferred (.named label) → some label ∉ opened) :
    (Opened.labels (content.opening opened)).Nodup := by
  cases content with
  | ready node => exact different
  | deferred deferral =>
    cases deferral with
    | named label =>
      have absent : label ∉ Opened.labels opened := mt Opened.mem_labels_iff.1 (new label rfl)
      exact List.nodup_cons.2 ⟨absent, different⟩
    | _ => exact different

/-- A walk finds the node of a structure if the structure is different from what is open and there
is room for it. -/
theorem find_of_resolve? {node : Node} (resolves : content.resolve? scope = some node)
    (different : (Opened.labels (content.opening opened)).Nodup)
    (room : (content.opening opened).length ≤ maxHops) :
    content.find scope opened = .found node := by
  cases content with
  | ready own =>
    obtain rfl : own = node := by simpa using resolves
    rfl
  | deferred deferral =>
    have free : ¬ maxHops ≤ opened.length := by
      rw [opening, List.length_cons] at room
      omega
    have entered : deferral.isClosedTo opened = false := by
      cases deferral with
      | named label =>
        have absent := mt Opened.mem_labels_iff.2 (List.nodup_cons.1 different).1
        simp [Deferral.isClosedTo, Deferral.identity, absent, free]
      | _ => simp [Deferral.isClosedTo, Deferral.identity, free]
    simp [find, entered, resolves]

/-- Where a walk finds a node, entering the structure leaves no more deferrals open than the
limit. -/
theorem length_opening_le {node : Node} (found : content.find scope opened = .found node)
    (room : opened.length ≤ maxHops) : (content.opening opened).length ≤ maxHops := by
  cases content with
  | ready own => exact room
  | deferred deferral =>
    have free : ¬ maxHops ≤ opened.length := by
      intro full
      rw [find_of_full full] at found
      exact Finding.noConfusion found
    rw [opening, List.length_cons]
    omega

/-- Named children lead from a structure down to a position. The deferrals that are met, from the
structure to the position, are listed as they follow on the way; a chain of deferrals at one place
counts as one. -/
inductive Descends (scope : Scope) : Structure → Opened → Structure → Prop
  /-- The position is the structure. -/
  | here {content : Structure} : Descends scope content (content.opening []) content
  /-- The way goes on from a named child of the node of the structure. -/
  | child {content child below : Structure} {node : Node} {name : String} {met : Opened} :
      content.resolve? scope = some node → (name, child) ∈ node.children →
      Descends scope child met below → Descends scope content (content.opening met) below

/-- A structure leads down to a boundary on a way on which some deferrals are met. -/
def LeadsToBoundary (scope : Scope) (content : Structure) (met : Opened) : Prop :=
  ∃ below inner, Descends scope content met below ∧ below.resolve? scope = some (.boundary inner)

namespace Descends

/-- A way on which a label is met goes on from there as a way of its own. -/
theorem exists_of_mem {label : Nat} (descends : Descends scope content met below)
    (member : some label ∈ met) :
    ∃ later, later <:+ met ∧ Descends scope (.deferred (.named label)) later below := by
  induction descends with
  | here =>
    rcases mem_opening_iff.1 member with rfl | earlier
    · exact ⟨_, List.suffix_rfl, .here⟩
    · exact absurd earlier List.not_mem_nil
  | @child content child below node name met resolves among further hypothesis =>
    rcases mem_opening_iff.1 member with rfl | later
    · exact ⟨_, List.suffix_rfl, .child resolves among further⟩
    · obtain ⟨rest, ends, goesOn⟩ := hypothesis later
      exact ⟨rest, ends.trans (suffix_opening content met), goesOn⟩

/-- A way down can be shortened to one that meets no label twice. -/
theorem exists_different (descends : Descends scope content met below) :
    ∃ fewer, Descends scope content fewer below ∧ (Opened.labels fewer).Nodup ∧
      fewer.length ≤ met.length := by
  induction descends with
  | @here content =>
    refine ⟨_, .here, nodup_labels_opening List.nodup_nil fun label _ => ?_, Nat.le_refl _⟩
    exact List.not_mem_nil
  | @child content child below node name met resolves among _ hypothesis =>
    obtain ⟨fewer, shorter, different, less⟩ := hypothesis
    have fewerMet : fewer.length ≤ (content.opening met).length := by
      rw [length_opening]
      omega
    by_cases again : ∃ label, content = .deferred (.named label) ∧ some label ∈ fewer
    · -- The way starts anew where the label is met again.
      obtain ⟨label, rfl, member⟩ := again
      obtain ⟨later, ends, goesOn⟩ := shorter.exists_of_mem member
      have sublist : (Opened.labels later).Sublist (Opened.labels fewer) :=
        ends.sublist.filterMap id
      exact ⟨later, goesOn, different.sublist sublist, Nat.le_trans ends.length_le fewerMet⟩
    · have new : ∀ label, content = .deferred (.named label) → some label ∉ fewer :=
        fun label same member => again ⟨label, same, member⟩
      refine ⟨content.opening fewer, .child resolves among shorter,
        nodup_labels_opening different new, ?_⟩
      rw [length_opening, length_opening]
      omega

/-- A search goes down a way to a boundary if the deferrals on the way are different from one
another and from what is open, and there is room for them. -/
theorem reachesBoundary {inner : Structure} (descends : Descends scope content met below)
    (boundary : below.resolve? scope = some (.boundary inner))
    (different : (Opened.labels (met ++ opened)).Nodup)
    (room : met.length + opened.length ≤ maxHops) :
    content.reachesBoundary scope opened = true := by
  induction descends generalizing opened with
  | @here content =>
    have same := content.opening_append_perm [] opened
    have entered : (Opened.labels (content.opening opened)).Nodup :=
      (same.filterMap id).nodup_iff.1 different
    have inside : (content.opening opened).length ≤ maxHops := by
      rw [length_opening] at room ⊢
      simpa [Nat.add_comm] using room
    exact reachesBoundary_of_boundary (find_of_resolve? boundary entered inside)
  | @child content child below node name met resolves among _ hypothesis =>
    have same := content.opening_append_perm met opened
    have onward : (Opened.labels (met ++ content.opening opened)).Nodup :=
      (same.filterMap id).nodup_iff.1 different
    have inside : met.length + (content.opening opened).length ≤ maxHops := by
      rw [length_opening] at room ⊢
      omega
    have sublist : (Opened.labels (content.opening opened)).Sublist
        (Opened.labels (met ++ content.opening opened)) :=
      (List.sublist_append_right met _).filterMap id
    have found := find_of_resolve? resolves (onward.sublist sublist) (by omega)
    exact reachesBoundary_of_child found among (hypothesis boundary onward inside)

end Descends

/-- What a search finds lies at the end of a way with as many deferrals as there is room for. -/
theorem exists_leadsToBoundary (reaches : content.reachesBoundary scope opened = true)
    (room : opened.length ≤ maxHops) :
    ∃ met, content.LeadsToBoundary scope met ∧ met.length + opened.length ≤ maxHops := by
  induction opened, content using reachesBoundary.induct scope with
  | case1 opened content node found hypothesis =>
    have resolves := resolve?_of_find found
    have inside : (content.opening opened).length ≤ maxHops := length_opening_le found room
    rw [reachesBoundary_eq, found] at reaches
    simp only [Bool.or_eq_true, List.any_eq_true] at reaches
    rcases reaches with boundary | ⟨child, member, reaches⟩
    · cases node with
      | boundary inner =>
        refine ⟨_, ⟨content, inner, .here, resolves⟩, ?_⟩
        rw [length_opening] at inside ⊢
        simpa [Nat.add_comm] using inside
      | _ => simp [Node.isBoundary] at boundary
    · obtain ⟨met, ⟨below, inner, descends, boundary⟩, less⟩ :=
        hypothesis ⟨child, member⟩ reaches inside
      refine ⟨_, ⟨below, inner, .child resolves member descends, boundary⟩, ?_⟩
      rw [length_opening] at less ⊢
      omega
  | case2 opened content other =>
    rw [reachesBoundary_eq] at reaches
    split at reaches
    · next node found => exact absurd found (other node)
    · simp at reaches

/-- The search for a boundary, which comes to an end for every structure, finds one exactly if a way
through named children leads to one on which no more deferrals are met than the limit. So a boundary
is never hidden by the search not entering a deferral that it has open. -/
theorem hasBoundary_iff_leadsToBoundary (scope : Scope) (content : Structure) :
    content.hasBoundary scope = true ↔
      ∃ met, content.LeadsToBoundary scope met ∧ met.length ≤ maxHops := by
  constructor
  · intro reaches
    exact exists_leadsToBoundary reaches (Nat.zero_le maxHops)
  · rintro ⟨met, ⟨below, inner, descends, boundary⟩, room⟩
    obtain ⟨fewer, shorter, different, less⟩ := descends.exists_different
    have apart : (Opened.labels (fewer ++ [])).Nodup := by rwa [List.append_nil]
    exact shorter.reachesBoundary boundary apart (Nat.le_trans less room)

end Structure

end StateSlice
