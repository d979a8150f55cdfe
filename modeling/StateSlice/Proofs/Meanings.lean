import Mathlib.Data.Finset.Card
import Mathlib.Data.List.Basic
import StateSlice.Structure.Resolve

/-!
# What labels stand for

A scope tells for each label where following it leads. It does so rightly for a `Scope.Meaning`, by
which each label stands for a structure: following a label leads where following its structure
leads. The scope of some definitions is found in rounds, from no landing at all, and as many rounds
as there are definitions settle it. A landing that is not settled has followed another one that was
not settled one round before, so an unsettled landing after the last round has followed a label
twice. But labels that lead around are settled: they are endless unless a default is declared on the
way around, and then what it is declared for is the placeholder from the first round on.
-/
namespace StateSlice

/-- Induction over a deferral, along what is followed in it. -/
theorem Deferral.induct {motive : Deferral → Prop} (named : ∀ label, motive (.named label))
    (fresh : ∀ label, motive (.fresh label)) (ready : ∀ node, motive (.held (.ready node)))
    (held : ∀ deferral, motive deferral → motive (.held (.deferred deferral)))
    (overridden : ∀ deferral value, motive deferral → motive (.overridden deferral value)) :
    ∀ deferral, motive deferral
  | .named label => named label
  | .fresh label => fresh label
  | .held (.ready node) => ready node
  | .held (.deferred deferral) =>
    held deferral (Deferral.induct named fresh ready held overridden deferral)
  | .overridden deferral value =>
    overridden deferral value (Deferral.induct named fresh ready held overridden deferral)

mutual
/-- The label that following a structure comes to, if it comes to one. -/
def Structure.label? : Structure → Option Nat
  | .ready _ => none
  | .deferred deferral => deferral.label?

/-- The label that following a deferral comes to, if it comes to one. -/
def Deferral.label? : Deferral → Option Nat
  | .named label | .fresh label => some label
  | .held content => content.label?
  | .overridden deferral _ => deferral.label?
end

namespace Landing

/-- No node is reached within the limit but the placeholder, as it is or with another default. -/
def IsHollow (landing : Landing) : Prop :=
  ∀ value, (landing.node?.getD .placeholder).withDefault value =
    Node.placeholder.withDefault value

/-- An endless landing reaches nothing. -/
theorem isHollow_endless : IsHollow .endless := fun _ => rfl

/-- From further away no other node is reached. -/
theorem IsHollow.later {landing : Landing} (hollow : landing.IsHollow) :
    landing.later.IsHollow := by
  cases landing with
  | endless => exact isHollow_endless
  | reaches hops node =>
    intro value
    by_cases few : hops + 1 ≤ maxHops
    · have near : hops ≤ maxHops := Nat.le_of_succ_le few
      have same := hollow value
      rw [node?, if_pos near] at same
      rwa [Landing.later, node?, if_pos few]
    · rw [Landing.later, node?, if_neg few]
      rfl

end Landing

namespace Deferral

variable {deferral : Deferral} {label : Nat}

/-- Where following a deferral leads depends on the scope at the label that it comes to. -/
theorem landing_congr {scope other : Scope} (deferral : Deferral)
    (agree : ∀ label, deferral.label? = some label → scope label = other label) :
    deferral.landing scope = deferral.landing other := by
  induction deferral using Deferral.induct with
  | named label => exact agree label rfl
  | fresh label => exact agree label rfl
  | ready node => rfl
  | held deferral hypothesis =>
    exact congrArg Landing.later (hypothesis fun label comes => agree label comes)
  | overridden deferral value hypothesis =>
    rw [landing, landing, hypothesis fun label comes => agree label comes]

/-- If the label that a deferral comes to reaches nothing, neither does the deferral. -/
theorem isHollow_landing (comes : deferral.label? = some label) {landing : Landing}
    (hollow : landing.IsHollow) : (deferral.landing fun _ => landing).IsHollow := by
  induction deferral using Deferral.induct with
  | named | fresh => exact hollow
  | ready node => exact nomatch comes
  | held deferral hypothesis => exact (hypothesis comes).later
  | overridden deferral value hypothesis =>
    intro instead
    rw [Deferral.landing, hypothesis comes value]
    rfl

/-- A deferral that comes to a label is endless if the label is, or it makes no difference which
hollow landing the label has, as a default is declared on the way. -/
theorem landing_endless_or_const (comes : deferral.label? = some label) :
    (deferral.landing fun _ => .endless) = .endless ∨
      ∀ landing other : Landing, landing.IsHollow → other.IsHollow →
        (deferral.landing fun _ => landing) = deferral.landing fun _ => other := by
  induction deferral using Deferral.induct with
  | named | fresh => exact .inl rfl
  | ready node => exact nomatch comes
  | held deferral hypothesis =>
    rcases hypothesis comes with endless | same
    · exact .inl (congrArg Landing.later endless)
    · exact .inr fun landing other first second => congrArg Landing.later (same _ _ first second)
  | overridden deferral value hypothesis =>
    refine .inr fun landing other first second => ?_
    have inside : deferral.label? = some label := comes
    rw [Deferral.landing, Deferral.landing, isHollow_landing inside first value,
      isHollow_landing inside second value]

end Deferral

namespace Structure

variable {content : Structure} {label : Nat}

/-- Where following a structure leads depends on the scope at the label that it comes to. -/
theorem landing_congr {scope other : Scope} (content : Structure)
    (agree : ∀ label, content.label? = some label → scope label = other label) :
    content.landing scope = content.landing other := by
  cases content with
  | ready node => rfl
  | deferred deferral => exact congrArg Landing.later (deferral.landing_congr agree)

/-- Where following a structure leads if it comes to a label. -/
theorem landing_of_label? (comes : content.label? = some label) (scope : Scope) :
    content.landing scope = content.landing fun _ => scope label := by
  refine content.landing_congr fun other same => ?_
  rw [Option.some.inj (same.symm.trans comes)]

/-- If the label that a structure comes to reaches nothing, neither does the structure. -/
theorem isHollow_landing (comes : content.label? = some label) {landing : Landing}
    (hollow : landing.IsHollow) : (content.landing fun _ => landing).IsHollow := by
  cases content with
  | ready node => exact nomatch comes
  | deferred deferral => exact (Deferral.isHollow_landing comes hollow).later

/-- A structure that comes to a label is endless if the label is, or it makes no difference which
hollow landing the label has. -/
theorem landing_endless_or_const (comes : content.label? = some label) :
    (content.landing fun _ => .endless) = .endless ∨
      ∀ landing other : Landing, landing.IsHollow → other.IsHollow →
        (content.landing fun _ => landing) = content.landing fun _ => other := by
  cases content with
  | ready node => exact nomatch comes
  | deferred deferral =>
    rcases Deferral.landing_endless_or_const comes with endless | same
    · exact .inl (congrArg Landing.later endless)
    · exact .inr fun landing other first second => congrArg Landing.later (same _ _ first second)

end Structure

namespace Scope

/-- What the labels of a scope stand for. -/
structure Meaning (scope : Scope) where
  /-- The structure that a label stands for. -/
  content : Nat → Structure
  /-- Following a label leads where following its structure leads. -/
  landing_content : ∀ label, (content label).landing scope = scope label

section Rounds

variable (content : Nat → Structure)

/-- Where labels lead as far as it is known after some rounds: in each round every label leads where
its structure leads by what was known before. -/
def known : (rounds : Nat) → Scope
  | 0 => fun _ => .endless
  | rounds + 1 => fun label => (content label).landing (known rounds)

/-- The label after some steps from one label to the one that its structure comes to. -/
def labelAfter (label : Nat) : (steps : Nat) → Option Nat
  | 0 => some label
  | steps + 1 => (labelAfter label steps).bind fun other => (content other).label?

/-- A round changes where a label leads. -/
def Unsettled (rounds label : Nat) : Prop :=
  known content (rounds + 1) label ≠ known content rounds label

/-- The structures of some labels come to labels among them again. -/
def LeadAround (labels : Nat → Prop) : Prop :=
  ∀ label, labels label → ∃ other, (content label).label? = some other ∧ labels other

variable {content} {labels : Nat → Prop} {label rounds : Nat}

/-- Where a label leads after a round, if its structure comes to a label. -/
theorem known_succ {other : Nat} (comes : (content label).label? = some other) :
    known content (rounds + 1) label =
      (content label).landing fun _ => known content rounds other :=
  Structure.landing_of_label? comes (known content rounds)

/-- An unsettled label has come to one that was unsettled a round before. -/
theorem Unsettled.exists_label (unsettled : Unsettled content (rounds + 1) label) :
    ∃ other, (content label).label? = some other ∧ Unsettled content rounds other := by
  by_contra none
  apply unsettled
  refine (content label).landing_congr fun other comes => ?_
  by_contra changed
  exact none ⟨other, comes, changed⟩

/-- From a label that is unsettled after some rounds there are as many steps, to labels that were
unsettled before. -/
theorem Unsettled.exists_labelAfter (unsettled : Unsettled content rounds label) {steps : Nat}
    (few : steps ≤ rounds) :
    ∃ other, labelAfter content label steps = some other ∧
      Unsettled content (rounds - steps) other := by
  induction steps with
  | zero => exact ⟨label, rfl, unsettled⟩
  | succ steps hypothesis =>
    obtain ⟨other, comes, changed⟩ := hypothesis (Nat.le_of_succ_le few)
    rw [show rounds - steps = rounds - (steps + 1) + 1 by omega] at changed
    obtain ⟨next, further, before⟩ := changed.exists_label
    exact ⟨next, by rw [labelAfter, comes, Option.bind_some, further], before⟩

/-- Labels that lead around only reach nothing. -/
theorem LeadAround.isHollow_known (around : LeadAround content labels) (among : labels label) :
    (known content rounds label).IsHollow := by
  induction rounds generalizing label with
  | zero => exact Landing.isHollow_endless
  | succ rounds hypothesis =>
    obtain ⟨other, comes, further⟩ := around label among
    rw [known_succ comes]
    exact Structure.isHollow_landing comes (hypothesis further)

/-- Labels that lead around are endless in every round if no structure of them makes a landing of an
endless one. -/
theorem LeadAround.known_eq (around : LeadAround content labels)
    (stays : ∀ label, labels label → ((content label).landing fun _ => .endless) = .endless)
    (among : labels label) : known content rounds label = .endless := by
  induction rounds generalizing label with
  | zero => rfl
  | succ rounds hypothesis =>
    obtain ⟨other, comes, further⟩ := around label among
    rw [known_succ comes, hypothesis further, stays label among]

/-- Not all labels that lead around are unsettled after the first round. -/
theorem LeadAround.exists_settled (around : LeadAround content labels) (among : labels label) :
    ∃ other, labels other ∧ ∀ rounds, ¬ Unsettled content (rounds + 1) other := by
  by_cases stays : ∀ label, labels label → ((content label).landing fun _ => .endless) = .endless
  · refine ⟨label, among, fun rounds changed => changed ?_⟩
    rw [around.known_eq stays among, around.known_eq stays among]
  · -- A default is declared here, which settles the label in the first round.
    simp only [not_forall] at stays
    obtain ⟨other, inside, moves⟩ := stays
    obtain ⟨next, comes, further⟩ := around other inside
    have same := (Structure.landing_endless_or_const comes).resolve_left moves
    refine ⟨other, inside, fun rounds changed => changed ?_⟩
    rw [known_succ comes, known_succ comes]
    exact same _ _ (around.isHollow_known further) (around.isHollow_known further)

/-- If a label comes to the same one after two numbers of steps, what it comes to in between leads
around. -/
theorem leadAround_of_repeat {first second : Nat} (less : first < second)
    (same : labelAfter content label first = labelAfter content label second)
    (onward : ∀ step ≤ second, ∃ other, labelAfter content label step = some other) :
    LeadAround content fun other =>
      ∃ step, first ≤ step ∧ step < second ∧ labelAfter content label step = some other := by
  rintro other ⟨step, after, before, comes⟩
  obtain ⟨next, further⟩ := onward (step + 1) before
  have leads : (content other).label? = some next := by
    rwa [labelAfter, comes, Option.bind_some] at further
  refine ⟨next, leads, ?_⟩
  rcases Nat.lt_or_eq_of_le before with earlier | last
  · exact ⟨step + 1, Nat.le_succ_of_le after, earlier, further⟩
  · exact ⟨first, Nat.le_refl first, less, by rw [same, ← last, further]⟩

/-- One step more than there are numbers comes to a number twice. -/
theorem exists_repeat {count : Nat} {visited : Nat → Option Nat}
    (small : ∀ step ≤ count, ∃ other < count, visited step = some other) :
    ∃ first second, first < second ∧ second ≤ count ∧ visited first = visited second := by
  have card : (Finset.range count).card < (Finset.range (count + 1)).card := by simp
  have maps : ∀ step ∈ Finset.range (count + 1), (visited step).getD 0 ∈ Finset.range count := by
    intro step member
    obtain ⟨other, less, comes⟩ := small step (Nat.le_of_lt_succ (Finset.mem_range.1 member))
    rw [comes, Option.getD_some]
    exact Finset.mem_range.2 less
  obtain ⟨first, few, second, also, different, same⟩ :=
    Finset.exists_ne_map_eq_of_card_lt_of_maps_to card maps
  have inFirst := Nat.le_of_lt_succ (Finset.mem_range.1 few)
  have inSecond := Nat.le_of_lt_succ (Finset.mem_range.1 also)
  obtain ⟨one, -, atFirst⟩ := small first inFirst
  obtain ⟨other, -, atSecond⟩ := small second inSecond
  have equal : visited first = visited second := by
    rw [atFirst, atSecond] at same ⊢
    exact congrArg some same
  rcases Nat.lt_or_gt_of_ne different with less | more
  · exact ⟨first, second, less, inSecond, equal⟩
  · exact ⟨second, first, more, inFirst, equal.symm⟩

/-- If all other labels are endless, as many rounds as there are labels settle every label. -/
theorem not_unsettled_of_endless {count : Nat}
    (others : ∀ label, count ≤ label → ∀ rounds, known content rounds label = .endless)
    (label : Nat) : ¬ Unsettled content count label := by
  intro unsettled
  have steps (step : Nat) (few : step ≤ count) := unsettled.exists_labelAfter few
  have small : ∀ step ≤ count, ∃ other < count, labelAfter content label step = some other := by
    intro step few
    obtain ⟨other, comes, changed⟩ := steps step few
    refine ⟨other, Nat.lt_of_not_le fun large => changed ?_, comes⟩
    rw [others other large, others other large]
  obtain ⟨first, second, less, few, same⟩ := exists_repeat small
  have around := leadAround_of_repeat less same fun step before =>
    (small step (Nat.le_trans before few)).imp fun other comes => comes.2
  obtain ⟨start, -, comes⟩ := small first (Nat.le_of_lt (Nat.lt_of_lt_of_le less few))
  obtain ⟨other, ⟨step, -, before, also⟩, settled⟩ :=
    around.exists_settled ⟨first, Nat.le_refl first, less, comes⟩
  obtain ⟨again, reached, changed⟩ := steps step (Nat.le_trans (Nat.le_of_lt before) few)
  obtain rfl := Option.some.inj (also.symm.trans reached)
  rw [show count - step = count - step - 1 + 1 by omega] at changed
  exact settled _ changed

end Rounds

section Definitions

variable (definitions : List Structure)

/-- What labels stand for by some definitions; a label without a definition stands for itself. -/
def defined (label : Nat) : Structure := definitions.getD label (.deferred (.named label))

/-- A label within the definitions stands for its definition. -/
theorem defined_of_lt {label : Nat} (inside : label < definitions.length) :
    defined definitions label = definitions[label] := by
  simp [defined, inside]

/-- A label without a definition is endless. -/
theorem known_defined_of_le {label : Nat} (undefined : definitions.length ≤ label)
    (rounds : Nat) : known (defined definitions) rounds label = .endless := by
  induction rounds with
  | zero => rfl
  | succ rounds hypothesis =>
    have itself : defined definitions label = .deferred (.named label) := by
      simp [defined, undefined]
    have comes : (defined definitions label).label? = some label := by
      rw [itself]
      rfl
    rw [known_succ comes, hypothesis, itself]
    rfl

/-- Rounds of following definitions find what is known of the labels. -/
theorem getD_iterate_round (rounds : Nat) :
    (fun label => ((round definitions)^[rounds] []).getD label .endless) =
      known (defined definitions) rounds := by
  induction rounds with
  | zero => rfl
  | succ rounds hypothesis =>
    funext label
    rw [Function.iterate_succ_apply', round, hypothesis]
    by_cases inside : label < definitions.length
    · have here : known (defined definitions) (rounds + 1) label =
          definitions[label].landing (known (defined definitions) rounds) :=
        congrArg (Structure.landing _) (defined_of_lt definitions inside)
      simp [here, inside]
    · have undefined : definitions.length ≤ label := Nat.le_of_not_lt inside
      simp [known_defined_of_le definitions undefined, undefined]

/-- The scope of some definitions is what is known after as many rounds. -/
theorem ofDefinitions_eq_known :
    ofDefinitions definitions = known (defined definitions) definitions.length := by
  rw [← getD_iterate_round, ← List.foldl_const]
  rfl

/-- In the scope of some definitions each label stands for its definition. -/
def Meaning.ofDefinitions : (Scope.ofDefinitions definitions).Meaning where
  content := defined definitions
  landing_content label := by
    have settled := not_unsettled_of_endless
      (fun _ undefined => known_defined_of_le definitions undefined) label
    rw [ofDefinitions_eq_known]
    exact not_not.1 settled

end Definitions

end Scope

end StateSlice
