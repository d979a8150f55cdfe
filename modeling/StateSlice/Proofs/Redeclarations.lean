import Mathlib.Data.List.Induction
import StateSlice.Proofs.Similarity
import StateSlice.Proofs.Updates

/-!
# Shapes that declare a name again

The entries of a shape may declare a name, or the wildcard, any number of times. The shape is made
entry by entry, and each entry does one of two things to the children: it takes the place of the
child of its name, or it becomes a new last child. So a lookup, which finds the first child of a
name, finds the last entry of it: what a shape means is a map from keys to the `Shape.last?` entry
of each, and entries with the same map declare shapes that nothing can tell apart by what they do
with values.
-/
namespace StateSlice

open Json (Value)

namespace Shape

/-- The names among the keys of entries, in order; the wildcard has none. -/
def names (entries : List (Key × Structure)) : List String :=
  entries.filterMap fun entry =>
    match entry.1 with
    | .named name => some name
    | .wildcard => none

/-- What the last entry of a key declares. -/
def last? (key : Key) (entries : List (Key × Structure)) : Option Structure :=
  (entries.reverse.find? (·.1 == key)).map (·.2)

/-- With one more entry at the end, it is the last of its key. -/
theorem last?_concat (key : Key) (entries : List (Key × Structure)) (entry : Key × Structure) :
    last? key (entries ++ [entry]) = if entry.1 = key then some entry.2 else last? key entries := by
  by_cases same : entry.1 = key <;> simp [last?, same]

/-- Nothing is declared last for a key exactly if no entry has the key. -/
theorem last?_eq_none_iff {key : Key} {entries : List (Key × Structure)} :
    last? key entries = none ↔ ∀ entry ∈ entries, entry.1 ≠ key := by
  simp [last?]

/-- With one more entry at the end, the children are bound by it. -/
theorem children_concat (entries : List (Key × Structure)) (entry : Key × Structure) :
    children (entries ++ [entry]) = bindEntry (children entries) entry :=
  List.foldl_concat bindEntry [] entry entries

/-- With one more entry at the end, the wildcard is bound by it. -/
theorem wildcard?_concat (entries : List (Key × Structure)) (entry : Key × Structure) :
    wildcard? (entries ++ [entry]) = bindWildcard (wildcard? entries) entry :=
  List.foldl_concat bindWildcard none entry entries

/-- The wildcard of a shape is the last entry of the wildcard. -/
theorem wildcard?_eq_last? (entries : List (Key × Structure)) :
    wildcard? entries = last? .wildcard entries := by
  induction entries using List.reverseRecOn with
  | nil => rfl
  | append_singleton entries entry hypothesis =>
    obtain ⟨key, content⟩ := entry
    rw [wildcard?_concat, last?_concat, ← hypothesis]
    cases key <;> simp [bindWildcard]

/-- Binding a name keeps the names and their order, with a name that is new at the end. -/
theorem names_bind (name : String) (content : Structure) (children : List (String × Structure)) :
    (bind name content children).map (·.1) =
      if name ∈ children.map (·.1) then children.map (·.1)
      else children.map (·.1) ++ [name] := by
  induction children with
  | nil => rfl
  | cons child children hypothesis =>
    obtain ⟨known, old⟩ := child
    by_cases same : known = name
    · simp [bind, same]
    · have different : name ≠ known := Ne.symm same
      rw [bind, if_neg same, List.map_cons, hypothesis]
      by_cases later : name ∈ children.map (·.1)
      · simp [later]
      · simp [later, different]

/-- After a name is bound it has its new structure, and every other name what it had before. -/
theorem child?_bind (name key : String) (content : Structure)
    (children : List (String × Structure)) :
    child? key (bind name content children) =
      if name = key then some content else child? key children := by
  induction children with
  | nil => by_cases same : name = key <;> simp [bind, child?, same]
  | cons child children hypothesis =>
    obtain ⟨known, old⟩ := child
    rw [child?] at hypothesis
    by_cases here : known = name
    · by_cases same : name = key <;> simp [bind, child?, here, same]
    · by_cases first : known = key
      · have different : ¬ name = key := fun same => here (first.trans same.symm)
        have other : ¬ key = name := fun same => different same.symm
        simp [bind, child?, first, different, other]
      · simpa [bind, child?, here, first] using hypothesis

/-- The children of a shape have different names. -/
theorem nodup_names_children (entries : List (Key × Structure)) :
    ((children entries).map (·.1)).Nodup := by
  induction entries using List.reverseRecOn with
  | nil => exact List.nodup_nil
  | append_singleton entries entry hypothesis =>
    obtain ⟨key, content⟩ := entry
    rw [children_concat]
    cases key with
    | wildcard => exact hypothesis
    | named name =>
      rw [bindEntry, names_bind]
      by_cases known : name ∈ (children entries).map (·.1)
      · rwa [if_pos known]
      · rw [if_neg known, ← List.concat_eq_append]
        exact hypothesis.concat known

/-- The children of a shape have the names of the entries, each where it occurs first. -/
theorem names_children (entries : List (Key × Structure)) :
    (children entries).map (·.1) = (names entries).eraseDups := by
  induction entries using List.reverseRecOn with
  | nil => rfl
  | append_singleton entries entry hypothesis =>
    obtain ⟨key, content⟩ := entry
    rw [children_concat, names, List.filterMap_append, ← names]
    cases key with
    | wildcard =>
      simp only [bindEntry, List.filterMap_cons, List.filterMap_nil, List.append_nil]
      exact hypothesis
    | named name =>
      simp only [bindEntry, names_bind, List.filterMap_cons, List.filterMap_nil,
        List.eraseDups_append, hypothesis, List.mem_eraseDups]
      by_cases known : name ∈ names entries <;>
        simp [known, List.removeAll, List.eraseDups_cons]

/-- The child of a name is what the last entry of the name declares. -/
theorem child?_children (entries : List (Key × Structure)) (name : String) :
    child? name (children entries) = last? (.named name) entries := by
  induction entries using List.reverseRecOn with
  | nil => rfl
  | append_singleton entries entry hypothesis =>
    obtain ⟨key, content⟩ := entry
    rw [children_concat, last?_concat, ← hypothesis]
    cases key with
    | wildcard => simp [bindEntry]
    | named known => simp [bindEntry, child?_bind]

/-- A child is bound to what the last entry of its name declares. -/
theorem mem_children_iff {entries : List (Key × Structure)} {name : String}
    {content : Structure} :
    (name, content) ∈ children entries ↔ last? (.named name) entries = some content := by
  rw [← child?_children, child?, Option.map_eq_some_iff]
  constructor
  · intro member
    exact ⟨_, Tree.find?_of_mem (nodup_names_children entries) member, rfl⟩
  · rintro ⟨child, search, rfl⟩
    have named : child.1 = name := by simpa using List.find?_some search
    rw [← named]
    exact List.mem_of_find?_eq_some search

/-- What a shape declares for a name is the last entry of the name, or else the last wildcard. -/
theorem lookup_children (entries : List (Key × Structure)) (name : String) :
    lookup (children entries) (wildcard? entries) name true =
      (last? (.named name) entries <|> last? .wildcard entries) := by
  rw [lookup, child?_children, wildcard?_eq_last?, if_pos rfl]

end Shape

namespace Structure

variable {scope : Scope}

/-- The inner node of a declared shape is the shape of its entries. -/
theorem inner_shape (scope : Scope) (entries : List (Key × Structure)) :
    (shape entries).inner scope =
      .shape (Shape.children entries) (Shape.wildcard? entries) none := by
  rw [inner, shape, resolve_ready, Node.lookThrough_eq_self scope rfl]

/-- What a declared shape has for a name, if its wildcard is allowed, is the last entry of the name,
or else the last wildcard. -/
theorem child?_shape (scope : Scope) (entries : List (Key × Structure)) (name : String) :
    (shape entries).child? scope name ((shape entries).hasWildcard scope) =
      (Shape.last? (.named name) entries <|> Shape.last? .wildcard entries) := by
  rw [child?_hasWildcard (inner_shape scope entries), Shape.lookup_children]

/-- Shapes that declare the same for every name keep the same of entries. -/
theorem conformEntries_congr {children others : List (String × Structure)}
    {wildcard other : Option Structure}
    (same : ∀ name, Shape.lookup children wildcard name true = Shape.lookup others other name true)
    (entries : Json.Entries) :
    conformEntries scope children wildcard entries = conformEntries scope others other entries := by
  simp only [conformEntries_eq_filterMap, conformAt, same]

/-- Shapes that declare the same for every name reject the same in entries. -/
theorem rejectionsInEntries_congr {children others : List (String × Structure)}
    {wildcard other : Option Structure}
    (same : ∀ name, Shape.lookup children wildcard name true = Shape.lookup others other name true)
    (entries : Json.Entries) :
    rejectionsInEntries scope children wildcard entries =
      rejectionsInEntries scope others other entries := by
  have each (entry : String × Value) : rejectionsAt scope children wildcard entry =
      rejectionsAt scope others other entry := by rw [rejectionsAt, rejectionsAt, same]
  rw [rejectionsInEntries_eq_flatMap, rejectionsInEntries_eq_flatMap]
  exact List.flatMap_congr fun entry _ => each entry

/-- Whatever is done with a value by declared shapes whose last entries agree is the same: what is
kept of it, also of a value that is no object, and what is rejected in it. -/
theorem shape_congr {entries others : List (Key × Structure)}
    (agree : ∀ key, Shape.last? key entries = Shape.last? key others) (scope : Scope)
    (value : Value) :
    (shape entries).sanitizeShape scope value = (shape others).sanitizeShape scope value ∧
    (shape entries).conform scope value = (shape others).conform scope value ∧
    (shape entries).shapeRejections scope value = (shape others).shapeRejections scope value := by
  have declared (name : String) :
      Shape.lookup (Shape.children entries) (Shape.wildcard? entries) name true =
        Shape.lookup (Shape.children others) (Shape.wildcard? others) name true := by
    rw [Shape.lookup_children, Shape.lookup_children, agree, agree]
  refine ⟨?_, ?_, ?_⟩
  · rw [sanitizeShape_of_shape (inner_shape scope entries),
      sanitizeShape_of_shape (inner_shape scope others), conformEntries_congr declared]
  · simp only [conform_of_shape (inner_shape scope entries),
      conform_of_shape (inner_shape scope others), conformEntries_congr declared]
  · cases value <;> simp only [shapeRejections, inner_shape, rejectionsInEntries_congr declared]

/-- A declared shape is a map from keys to last entries. Its children have different names, in the
order in which the names occur first, and each is bound to the last entry of its name; its wildcard
is the last entry of the wildcard, and there is none if every entry is under a name, whatever the
names are. What is declared for a name is the last entry of the name, or else the last wildcard, or
else nothing; and entries of which the last ones agree, in whatever order, keep the same of every
value and reject the same in it. -/
theorem shape_denotes_last (entries : List (Key × Structure)) (scope : Scope) :
    (∃ children wildcard,
      (shape entries).inner scope = .shape children wildcard none ∧
      (children.map (·.1)).Nodup ∧ children.map (·.1) = (Shape.names entries).eraseDups ∧
      (∀ name content, (name, content) ∈ children ↔
        Shape.last? (.named name) entries = some content) ∧
      wildcard = Shape.last? .wildcard entries ∧
      (wildcard = none ↔ ∀ entry ∈ entries, ∃ name, entry.1 = .named name)) ∧
    (∀ name, (shape entries).child? scope name ((shape entries).hasWildcard scope) =
      (Shape.last? (.named name) entries <|> Shape.last? .wildcard entries)) ∧
    ∀ others, (∀ key, Shape.last? key entries = Shape.last? key others) → ∀ value,
      (shape entries).sanitizeShape scope value = (shape others).sanitizeShape scope value ∧
      (shape entries).conform scope value = (shape others).conform scope value ∧
      (shape entries).shapeRejections scope value =
        (shape others).shapeRejections scope value := by
  refine ⟨⟨_, _, inner_shape scope entries, Shape.nodup_names_children entries,
    Shape.names_children entries, fun name content => Shape.mem_children_iff,
    Shape.wildcard?_eq_last? entries, ?_⟩, child?_shape scope entries,
    fun others agree => shape_congr agree scope⟩
  have named (key : Key) : key ≠ .wildcard ↔ ∃ name, key = .named name := by
    cases key <;> simp
  simp only [Shape.wildcard?_eq_last?, Shape.last?_eq_none_iff, named]

/-- Entries that declare `a` and the wildcard twice, and a property named like the text of the
wildcard. -/
def redeclared : List (Key × Structure) :=
  [(.named "a", .scalar .number), (.wildcard, .scalar .any),
    (.named "<wildcard>", .scalar .boolean), (.named "a", .scalar .string),
    (.wildcard, .scalar .number)]

/-- The last of these entries, in another order. -/
def declaredOnce : List (Key × Structure) :=
  [(.wildcard, .scalar .number), (.named "<wildcard>", .scalar .boolean),
    (.named "a", .scalar .string)]

/-- Of the entries that declare names again the last ones count: `a` comes first and is a text, and
a value is kept under the property `<wildcard>` only if it is a boolean. -/
theorem shape_denotes_last_redeclared :
    let scope : Scope := fun _ => .endless
    let value : Value := .object [("<wildcard>", .number (.int 1)), ("a", .string "text"),
      ("b", .number (.int 2))]
    (∀ key, Shape.last? key redeclared = Shape.last? key declaredOnce) ∧
      (∃ children wildcard, (shape redeclared).inner scope = .shape children wildcard none ∧
        children.map (·.1) = ["a", "<wildcard>"]) ∧
      (shape redeclared).sanitizeShape scope value =
        .object [("a", .string "text"), ("b", .number (.int 2))] ∧
      (shape redeclared).sanitizeShape scope value =
        (shape declaredOnce).sanitizeShape scope value := by
  intro scope value
  have agree : ∀ key, Shape.last? key redeclared = Shape.last? key declaredOnce := by
    intro key
    cases key with
    | wildcard => rfl
    | named name =>
      by_cases first : name = "a"
      · rw [first]
        rfl
      · by_cases second : name = "<wildcard>"
        · rw [second]
          rfl
        · simp [Shape.last?, redeclared, declaredOnce, Ne.symm first, Ne.symm second]
  obtain ⟨⟨children, wildcard, node, -, names, -⟩, -, same⟩ := shape_denotes_last redeclared scope
  have kept : (shape redeclared).sanitizeShape scope value =
      .object [("a", .string "text"), ("b", .number (.int 2))] := rfl
  exact ⟨agree, ⟨children, wildcard, node, names⟩, kept, (same declaredOnce agree value).1⟩

end Structure

end StateSlice
