import StateSlice.Proofs.InnerNodes

/-!
# Defaults that leaves keep

A leaf of a chunk starts from the default of the node that is declared at its path, and its own
reset and that of every boundary around it restore that default. Sanitizing keeps it: the audit has
checked it if it is declared, and otherwise it is a zero, which only a custom node may reject. The
limits take two things away from this. Where no node is found the placeholder stands in, which does
not keep its own default; and behind the limit on open deferrals a declared default is not checked.
-/
namespace StateSlice

open Json (Value)

namespace Chunk

variable {scope : Scope} {name : String} {content : Structure} {options : ChunkOptions}
  {chunk : Chunk} {path : List String} {compiled : CompiledLeaf}

/-- An action brings the leaf at a path back to its default: it is made by the creator of the reset
of the leaf, or by that of a boundary around it. -/
def Restores (chunk : Chunk) (path : List String) (action : Action) : Prop :=
  (∃ creator, chunk.creator? path .reset = some creator ∧ action.type = creator.actionType) ∨
    ∃ boundary creator, boundary <+: path ∧ chunk.Resets boundary creator ∧
      action.type = creator.actionType

/-- What restores the leaf at a path sets it to its initial value. -/
theorem reduce_of_restores {action : Action}
    (built : build scope name content options = some (.ok chunk))
    (found : chunk.tree.leaf? path = some compiled) (restores : chunk.Restores path action)
    (state : Option Value) : compiled.leaf.reducer.reduce state action = compiled.leaf.initial := by
  have located := (exists_at?_of_leaf? built found).1
  rcases restores with ⟨creator, made, asks⟩ | ⟨boundary, creator, around, resets, asks⟩
  · obtain ⟨rfl, -⟩ := eq_of_creator? built made
    rw [← located] at asks
    exact Leaf.reduce_reset asks state
  · rw [eq_of_resets built resets] at asks
    rw [Leaf.reduce_resetAll located asks, if_pos around]

/-- A leaf of a chunk starts from the default of its structure. -/
theorem initial_of_leaf? (built : build scope name content options = some (.ok chunk))
    (found : chunk.tree.leaf? path = some compiled) :
    compiled.leaf.initial = compiled.leaf.content.defaultValue scope := by
  obtain ⟨place, -, placed⟩ := exists_compileLeaf_of_leaf? built found
  obtain ⟨container, -, rfl⟩ := Structure.eq_of_compileLeaf placed
  rfl

/-- A leaf of a chunk starts from its default and is restored to it by its reset and by that of
every boundary around it, and with distinct names so is the state of the chunk at the path of the
leaf. The position at the path is dead exactly if more boundaries nest directly at it than are
looked through, or if it leads nowhere behind the limit on open deferrals. If it is not, there is a
node inside its boundaries, and the leaf starts from the default that the node declares, or else
from the zero of its tag. Sanitizing keeps the default as it is, unless it is the null of a custom
node that declares no default and rejects null; only of a default that is declared behind the limit
on open deferrals nothing is said. -/
theorem default_kept_of_build (built : build scope name content options = some (.ok chunk))
    (found : chunk.tree.leaf? path = some compiled) :
    let leaf := compiled.leaf
    leaf.reducer.initialState = leaf.initial ∧
    (∀ state action, chunk.Restores path action →
      leaf.reducer.reduce state action = leaf.initial) ∧
    (content.DistinctNames scope →
      Selector.path path chunk.initialState = some leaf.initial ∧
      ∀ state action, chunk.Restores path action →
        Selector.path path (chunk.reducer.reduce state action) = some leaf.initial) ∧
    ∃ position, content.at? scope path = some position ∧
      leaf.content.inner scope = position.inner scope ∧
      (position.IsDead scope ↔ position.Nests scope (maxHops + 1) ∨
        position.LeadsNowhere scope ∧ content.CutOnWay scope path) ∧
      (¬ position.IsDead scope → ∃ boundaries ≤ maxHops, ∃ node,
        position.Encloses scope boundaries node ∧
        leaf.initial = node.explicit?.getD node.tag.zero ∧
        ((content.CutOnWay scope path → node.explicit? = none) →
          (leaf.content.conform scope leaf.initial = some leaf.initial ↔
            ∀ check message, node = .custom check message none → check .null = true))) := by
  intro leaf
  have starts : leaf.reducer.initialState = leaf.initial := leaf.apply_init leaf.initial
  have initial : leaf.initial = leaf.content.defaultValue scope := initial_of_leaf? built found
  obtain ⟨position, declared, comes, same, -⟩ := Structure.exists_comesTo_of_leaf? built found
  refine ⟨starts, fun state action restores => reduce_of_restores built found restores state,
    fun distinct => ⟨?_, fun state action restores => ?_⟩, position, declared, same,
    comes.isDead_iff (build_cases built).1, fun alive => ?_⟩
  · have first : Selector.path path chunk.initialState = some leaf.reducer.initialState :=
      path_reduce_of_build built distinct found none .init
    rw [first, starts]
  · rw [path_reduce_of_build built distinct found, reduce_of_restores built found restores]
  · obtain ⟨boundaries, few, encloses⟩ := Structure.exists_encloses_inner alive
    have declaredOrZero : leaf.initial =
        (position.inner scope).explicit?.getD (position.inner scope).tag.zero := by
      rw [initial, Structure.defaultValue, same, Node.ownDefault]
    refine ⟨boundaries, few, _, encloses, declaredOrZero, fun checked => ?_⟩
    have keeps : leaf.content.KeepsDeclared scope := by
      rcases keepsDeclared_of_build built found with cut | keeps
      · intro value explicit
        rw [same, checked cut] at explicit
        simp at explicit
      · exact keeps
    rw [initial, Structure.conform_defaultValue_iff keeps, same]

/-- A custom node that rejects every value. -/
def never : Structure := .custom (fun _ => false) "never"

/-- A number with the default five, deferred. -/
def five : Structure := .lazily (.ready (.scalar .number (some (.number (.int 5)))))

/-- A boundary around the number and the custom node. -/
def limits : Structure := .boundary (.ready (.shape [("low", five), ("odd", never)] none none))

/-- A structure with the boundary under a name. -/
def settings : Structure := .ready (.shape [("limits", limits)] none none)

/-- The leaf of the number at a mount. -/
def fiveLeaf (mount : Mount) : CompiledLeaf :=
  ⟨⟨noLabels, five, .value (.ofKind .number), .number (.int 5), mount.location⟩, mount.selector⟩

/-- The leaf of the custom node at a mount. -/
def neverLeaf (mount : Mount) : CompiledLeaf :=
  ⟨⟨noLabels, never, .value (.ofCheck fun _ => false), .null, mount.location⟩, mount.selector⟩

/-- What the boundary is compiled to. -/
def limitsTree (mount : Mount) : Tree CompiledLeaf :=
  .branch mount.location true
    [("low", .leaf (fiveLeaf (mount.child "low"))), ("odd", .leaf (neverLeaf (mount.child "odd")))]

/-- The chunk of the structure. -/
def settingsChunk : Chunk :=
  ⟨"app", "app", .branch "app" true [("limits", limitsTree ((mount "app" {}).child "limits"))],
    some (.of .resetAll "app")⟩

/-- No visit of the survey raises an issue, and all are near the root. -/
theorem survey_settings : ∀ visit ∈ settings.survey noLabels,
    visit.issueKinds noLabels = [] ∧ visit.path.length < maxHops := by
  have number (path : List Place) : five.surveyFrom noLabels [] path =
      [⟨path, five, .found (.scalar .number (some (.number (.int 5))))⟩] := by
    rw [Structure.surveyFrom_eq, five, Structure.find_lazily noLabels (by decide)]
    rfl
  have kept : five.conform noLabels (.number (.int 5)) = some (.number (.int 5)) := rfl
  simp [Structure.survey, settings, limits, never, Structure.boundary, Structure.custom, Node.parts,
    number, Visit.issueKinds, Node.explicit?, Node.isBoundary, Visit.isInArray, kept, maxHops]

/-- Neither the number nor the custom node has a boundary. -/
theorem hasBoundary_settings :
    five.hasBoundary noLabels = false ∧ never.hasBoundary noLabels = false :=
  ⟨Structure.hasBoundary_of_find (Structure.find_lazily noLabels (by decide) _) rfl rfl,
    Structure.hasBoundary_of_find rfl rfl rfl⟩

/-- The boundary is compiled to its tree. -/
theorem compileAs_limits (mount : Mount) :
    limits.compileAs noLabels true mount = some (.ok (limitsTree mount)) := by
  have inner : limits.inner noLabels = .shape [("low", five), ("odd", never)] none none := rfl
  rw [Structure.compileAs]
  simp only [inner, List.mapM_cons, List.mapM_nil, hasBoundary_settings]
  rfl

/-- The chunk is built. -/
theorem build_settings : build noLabels "app" settings {} = some (.ok settingsChunk) := by
  have clean : settings.audit noLabels = [] :=
    Structure.audit_eq_nil_iff.2 fun visit visited => (survey_settings visit visited).1
  have root : Structure.ready (settings.inner noLabels) = settings := rfl
  have boundary : limits.hasBoundary noLabels = true := by
    simp [Structure.hasBoundary, limits, Structure.boundary, Node.isBoundary]
  have bounded : settings.hasBoundary noLabels = true := by
    simp [Structure.hasBoundary, settings, limits, Structure.boundary, Node.isBoundary,
      Node.children]
  have inner : settings.inner noLabels = .shape [("limits", limits)] none none := rfl
  have marked : (limits.resolve noLabels).isBoundary = true := rfl
  simp only [build, clean, compile, root, bounded, if_true, Structure.compile]
  rw [Structure.compileAs]
  simp only [inner, List.mapM_cons, List.mapM_nil, boundary, marked, if_true, compileAs_limits]
  rfl

/-- The names are distinct everywhere. -/
theorem distinctNames_settings : settings.DistinctNames noLabels := by
  have leaf {content : Structure} (none : (content.inner noLabels).children = []) :
      content.DistinctNames noLabels :=
    Structure.distinctNames_of_children none List.nodup_nil (by simp)
  have number : five.DistinctNames noLabels := leaf rfl
  have custom : never.DistinctNames noLabels := leaf rfl
  have inner : limits.DistinctNames noLabels := by
    have declared : (limits.inner noLabels).children = [("low", five), ("odd", never)] := rfl
    exact Structure.distinctNames_of_children declared (by decide) (by simp [number, custom])
  have declared : (settings.inner noLabels).children = [("limits", limits)] := rfl
  exact Structure.distinctNames_of_children declared (by decide) (by simp [inner])

/-- The reset of the boundary brings the number back to the five that it declares and keeps, and the
custom node to the null that it rejects. -/
theorem default_kept_of_build_settings :
    let creator : Creator := .of .resetAll "app.limits"
    let state : Value := .object [("limits", .object [("low", .number (.int 7)),
      ("odd", .string "odd")])]
    let next := settingsChunk.reducer.reduce (some state) (creator.create .null)
    build noLabels "app" settings {} = some (.ok settingsChunk) ∧
      (∀ path, ¬ settings.CutOnWay noLabels path) ∧
      ¬ five.IsDead noLabels ∧ ¬ never.IsDead noLabels ∧
      five.conform noLabels (.number (.int 5)) = some (.number (.int 5)) ∧
      Selector.path ["limits", "low"] next = some (.number (.int 5)) ∧
      never.conform noLabels .null ≠ some .null ∧
      Selector.path ["limits", "odd"] next = some .null := by
  intro creator state next
  have uncut : ∀ path, ¬ settings.CutOnWay noLabels path :=
    Structure.not_cutOnWay_of_survey fun visit visited => (survey_settings visit visited).2
  have restores (name : String) :
      settingsChunk.Restores ["limits", name] (creator.create .null) :=
    .inr ⟨["limits"], creator, List.prefix_append ["limits"] [name], .inl rfl, rfl⟩
  have number : ¬ five.IsDead noLabels := by
    intro dead
    obtain ⟨value, same⟩ := dead (.scalar .number (some (.number (.int 5)))) rfl
    simp [Node.placeholder, Node.withDefault] at same
  have custom : ¬ never.IsDead noLabels := by
    intro dead
    obtain ⟨value, same⟩ := dead (.custom (fun _ => false) "never" none) rfl
    simp [Node.placeholder, Node.withDefault] at same
  have low : settingsChunk.tree.leaf? ["limits", "low"] =
      some (fiveLeaf (((mount "app" {}).child "limits").child "low")) := rfl
  have odd : settingsChunk.tree.leaf? ["limits", "odd"] =
      some (neverLeaf (((mount "app" {}).child "limits").child "odd")) := rfl
  obtain ⟨-, -, lowState, position, atLow, -, -, lowKept⟩ :=
    default_kept_of_build build_settings low
  obtain rfl : five = position := Option.some.inj atLow
  obtain ⟨_, few, node, encloses, -, lowIff⟩ := lowKept number
  obtain rfl : Node.scalar .number (some (.number (.int 5))) = node :=
    Structure.inner_of_encloses few encloses
  obtain ⟨-, -, oddState, position, atOdd, -, -, oddKept⟩ :=
    default_kept_of_build build_settings odd
  obtain rfl : never = position := Option.some.inj atOdd
  obtain ⟨_, few, node, encloses, -, oddIff⟩ := oddKept custom
  obtain rfl : Node.custom (fun _ => false) "never" none = node :=
    Structure.inner_of_encloses few encloses
  have kept := (lowIff fun cut => absurd cut (uncut _)).2 (by simp)
  have dropped : never.conform noLabels .null ≠ some .null := fun same =>
    Bool.noConfusion ((oddIff fun _ => rfl).1 same _ _ rfl)
  exact ⟨build_settings, uncut, number, custom, kept,
    (lowState distinctNames_settings).2 (some state) _ (restores "low"), dropped,
    (oddState distinctNames_settings).2 (some state) _ (restores "odd")⟩

/-- A structure is built as a chunk, and sanitizing drops what the chunk starts with at the path of
a leaf. -/
def StartsDropped (content : Structure) : Prop :=
  ∃ chunk path compiled value, build noLabels "n" content {} = some (.ok chunk) ∧
    chunk.tree.leaf? path = some compiled ∧
    Selector.path path chunk.initialState = some value ∧
    compiled.leaf.content.conform noLabels value = none

/-- What passes the audit starts with what is dropped if its inner node has no named children and
drops its own default. -/
theorem startsDropped_of_audit (clean : content.audit noLabels = [])
    (none : (content.inner noLabels).children = [])
    (dropped : content.conform noLabels (content.defaultValue noLabels) = .none) :
    StartsDropped content := by
  let root : Structure := .ready (content.inner noLabels)
  have same : root.inner noLabels = content.inner noLabels := content.inner_ready_inner noLabels
  have unbounded : root.hasBoundary noLabels = false :=
    Structure.hasBoundary_of_find rfl (content.isBoundary_inner noLabels) none
  obtain ⟨container, made⟩ := root.compileLeaf_eq_ok noLabels (mount "n" {})
  let leaf : Leaf := ⟨noLabels, root, container, root.defaultValue noLabels, "n"⟩
  refine ⟨⟨"n", "n", .leaf ⟨leaf, .key "n"⟩, .none⟩, [], ⟨leaf, .key "n"⟩, leaf.initial, ?_, rfl,
    congrArg some (leaf.apply_init leaf.initial), ?_⟩
  · simp only [build, clean, compile, unbounded, root] at made ⊢
    rw [made]
    rfl
  · have default : root.defaultValue noLabels = content.defaultValue noLabels := by
      rw [Structure.defaultValue, same, Structure.defaultValue]
    rw [← default] at dropped
    exact (Structure.conform_congr same _).trans dropped

/-- What is dead and passes the audit starts with what is dropped. -/
theorem startsDropped_of_isDead (clean : content.audit noLabels = [])
    (dead : content.IsDead noLabels) : StartsDropped content := by
  obtain ⟨message, explicit, own⟩ := Structure.inner_of_isDead dead
  exact startsDropped_of_audit clean (by rw [own]; rfl) (Structure.conform_of_rejecting own _)

/-- A structure inside some boundaries, each of them deferred. -/
def late (content : Structure) : (boundaries : Nat) → Structure
  | 0 => content
  | boundaries + 1 => .lazily (.ready (.boundary (late content boundaries)))

/-- The boundaries lead to the structure. -/
theorem wraps_late (scope : Scope) (content : Structure) (boundaries : Nat) :
    (late content boundaries).Wraps scope boundaries content := by
  induction boundaries with
  | zero => rfl
  | succ boundaries hypothesis => exact ⟨late content boundaries, rfl, hypothesis⟩

/-- Where there is room for the deferred boundaries and no more, the survey enters all of them and is
stopped at the deferral inside, and nothing on the way is an issue. -/
theorem issueKinds_surveyFrom_late {deferral : Deferral}
    (unbounded : (Structure.deferred deferral).hasBoundary scope = false) {boundaries : Nat}
    {opened : Opened} {path : List Place} (room : opened.length + boundaries = maxHops)
    (outside : Place.element ∉ path) :
    ∀ visit ∈ (late (.deferred deferral) boundaries).surveyFrom scope opened path,
      visit.issueKinds scope = [] := by
  induction boundaries generalizing opened path with
  | zero =>
    rw [late, Structure.surveyFrom_eq, Structure.find_of_full (Nat.le_of_eq room.symm)]
    simp [Visit.issueKinds, unbounded]
  | succ boundaries hypothesis =>
    have less : (none :: opened).length + boundaries = maxHops := by
      rw [List.length_cons]
      omega
    have inside : Place.element ∉ path ++ [.inside] := by simpa using outside
    have further := hypothesis less inside
    rw [late, Structure.surveyFrom_eq, Structure.find_lazily scope (by omega)]
    intro visit visited
    rcases List.mem_cons.1 visited with rfl | below
    · simp [Visit.issueKinds, Node.explicit?, Visit.isInArray, outside]
    · exact further visit (by simpa [Node.parts, Structure.lazily, Structure.opening,
        Deferral.identity] using below)

/-- Inside as many boundaries as deferrals can be open, the audit does not look at a deferral. -/
theorem audit_late {deferral : Deferral}
    (unbounded : (Structure.deferred deferral).hasBoundary scope = false) :
    (late (.deferred deferral) maxHops).audit scope = [] :=
  Structure.audit_eq_nil_iff.2
    (issueKinds_surveyFrom_late unbounded (Nat.zero_add maxHops) List.not_mem_nil)

/-- A number whose default is a text, deferred. -/
def mistaken : Structure := .lazily (.ready (.scalar .number (some (.string "five"))))

/-- A label that stands for nothing. -/
def missing : Structure := .deferred (.named 0)

/-- A shape that has a name twice, for a boundary around a number and for a string. -/
def repeated : Structure :=
  .ready (.shape [("a", .boundary (.scalar .number)), ("a", .scalar .string)] none none)

/-- The leaf of the number at a mount. -/
def numberLeaf (mount : Mount) : CompiledLeaf :=
  ⟨⟨noLabels, .boundary (.scalar .number), .value (.ofKind .number), .number (.int 0),
    mount.location⟩, mount.selector⟩

/-- At the name that the shape has twice, the state starts with the text of the second child, which
is not kept for the leaf of the first. -/
theorem startsDropped_repeated : StartsDropped repeated := by
  let below := (mount "n" {}).child "a"
  let tree : Tree CompiledLeaf :=
    .branch "n" true [("a", .leaf (numberLeaf below)), ("a", .leaf (scalarLeaf .string below))]
  have clean : repeated.audit noLabels = [] := by
    simp [Structure.audit_eq_nil_iff, Structure.survey, repeated, Structure.boundary,
      Structure.scalar, Node.parts, Visit.issueKinds, Node.explicit?, Node.isBoundary,
      Visit.isInArray]
  have marked : (Structure.boundary (.scalar .number)).hasBoundary noLabels = true := by
    simp [Structure.hasBoundary, Structure.boundary, Node.isBoundary]
  have bounded : repeated.hasBoundary noLabels = true := by
    simp [Structure.hasBoundary, repeated, Structure.boundary, Node.isBoundary, Node.children]
  have root : Structure.ready (repeated.inner noLabels) = repeated := rfl
  have first : Structure.CompiledUnder noLabels (mount "n" {})
      ("a", .boundary (.scalar .number)) ("a", .leaf (numberLeaf below)) := by
    refine ⟨rfl, ?_⟩
    rw [if_pos marked]
    exact Structure.compileAs_eq_leaf (by decide) rfl
  have second : Structure.CompiledUnder noLabels (mount "n" {}) ("a", .scalar .string)
      ("a", .leaf (scalarLeaf .string below)) := by
    refine ⟨rfl, ?_⟩
    rw [hasBoundary_scalar]
    exact ⟨_, rfl, rfl⟩
  have compiled : repeated.compile noLabels (mount "n" {}) = some (.ok tree) :=
    Structure.compileAs_eq_branch rfl (.cons first (.cons second .nil))
  refine ⟨⟨"n", "n", tree, some (.of .resetAll "n")⟩, ["a"], numberLeaf below, .string "", ?_, rfl,
    rfl, rfl⟩
  simp only [build, clean, compile, root, bounded, if_true, compiled]
  rfl

/-- A custom node that declares no default is built, and starts from the null that it rejects. So
are a number in one boundary more than is looked through, and a label that stands for nothing behind
the limit on open deferrals, which start from the null of the placeholder, and a number with a wrong
default behind that limit. And where a name is there twice the state starts with one default, and
the other is dropped. -/
theorem startsDropped_never_repeated_and_behind_limits : StartsDropped never ∧
    StartsDropped tooDeep ∧ StartsDropped (late missing maxHops) ∧
    StartsDropped (late mistaken maxHops) ∧ StartsDropped repeated := by
  refine ⟨?_, ?_, ?_, ?_, startsDropped_repeated⟩
  · have clean : never.audit noLabels = [] := by
      simp [Structure.audit_eq_nil_iff, Structure.survey, never, Structure.custom, Node.parts,
        Visit.issueKinds, Node.explicit?, Node.isBoundary]
    exact startsDropped_of_audit clean rfl rfl
  · have nests : tooDeep.Nests noLabels (maxHops + 1) :=
      ⟨_, Structure.wraps_nested noLabels (maxHops + 1)⟩
    exact startsDropped_of_isDead (Structure.audit_nested noLabels (maxHops + 1))
      (Structure.isDeadWithin_iff.2 (.inl nests))
  · have unbounded : missing.hasBoundary noLabels = false := by
      rw [Structure.hasBoundary, Structure.reachesBoundary_eq]
      rfl
    have nowhere : (late missing maxHops).LeadsNowhere noLabels :=
      .of_wraps (.here rfl) (wraps_late noLabels missing maxHops)
    exact startsDropped_of_isDead (audit_late unbounded)
      (Structure.isDeadWithin_iff.2 (.inr nowhere))
  · have unbounded : mistaken.hasBoundary noLabels = false :=
      Structure.hasBoundary_of_find (Structure.find_lazily noLabels (by decide) _) rfl rfl
    have own : (late mistaken maxHops).inner noLabels = .scalar .number (some (.string "five")) :=
      Structure.inner_of_encloses (Nat.le_refl _)
        ⟨_, wraps_late noLabels mistaken maxHops, rfl, rfl⟩
    have owned : ((late mistaken maxHops).inner noLabels).ownValidator? =
        some (.ofKind .number) := by
      rw [own]
      rfl
    refine startsDropped_of_audit (audit_late unbounded) (by rw [own]; rfl) ?_
    rw [Structure.conform_of_validator owned, Structure.defaultValue, own]
    rfl

end Chunk

end StateSlice
