import StateSlice.Audit
import StateSlice.Compile

/-!
# Chunks

A chunk is a structure compiled under a name: trees of reducers, of actions and of selectors with
the same shape, one reducer for the whole, and the reset of the whole if the structure has a
boundary inside. Unless told otherwise it is mounted at its name in the state of the host. A
structure with issues is not built. If compiling the structure has no end, building it has none.
-/
namespace StateSlice

open Json (Value)

/-- How a chunk is mounted, where that differs from its name. -/
structure ChunkOptions where
  /-- Reads the state of the chunk out of the state of the host. -/
  selector? : Option Selector := none
  /-- The location of the chunk. -/
  location? : Option String := none

/-- Why a chunk is not built. -/
inductive BuildError
  /-- No structure is given. -/
  | missingStructure
  /-- The structure has issues. -/
  | invalidStructure (issues : List Issue)
  /-- The structure cannot be compiled. -/
  | notCompiled (error : UnknownType)
deriving DecidableEq

/-- The text of the error. -/
def BuildError.message : BuildError → String
  | .missingStructure =>
    "Store structure not specified. Call .structure(structure) before .build()"
  | .invalidStructure issues =>
    "Structure failed its audit with " ++ toString issues.length ++ " issue(s)"
  | .notCompiled error => error.message

/-- A structure compiled under a name. -/
structure Chunk where
  /-- The name of the chunk. -/
  name : String
  /-- The location of the chunk. -/
  location : String
  /-- The compiled tree. -/
  tree : Tree CompiledLeaf
  /-- The creator of the reset of the whole chunk. -/
  resetAll : Option Creator

namespace Chunk

/-- The reducers of the leaves. -/
def reducers (chunk : Chunk) : Tree Reducer := chunk.tree.map (·.leaf.reducer)

/-- The actions of the leaves. -/
def actions (chunk : Chunk) : Tree LeafActions := chunk.tree.map (·.leaf.actions)

/-- The selectors of the leaves. -/
def selectors (chunk : Chunk) : Tree Selector := chunk.tree.map (·.selector)

/-- The reducer of the whole chunk. -/
def reducer (chunk : Chunk) : Reducer := chunk.reducers.combined

/-- The state of the chunk before any action. -/
def initialState (chunk : Chunk) : Value := chunk.reducer.initialState

/-- Whether the chunk has a boundary inside. -/
def isNested (chunk : Chunk) : Bool := chunk.resetAll.isSome

/-- The event of building the chunk. -/
def builtEvent (chunk : Chunk) : Event :=
  .chunkBuilt chunk.name chunk.location chunk.isNested chunk.tree.leaves.length

/-- How a chunk of a name is mounted. -/
def mount (name : String) (options : ChunkOptions) : Mount where
  selector := options.selector?.getD (.key name)
  location := options.location?.getD (Location.escape name)

/-- The tree of a chunk and the creator of its reset. The boundaries around the structure are not
compiled, as the chunk is one itself. -/
def compile (scope : Scope) (content : Structure) (mount : Mount) :
    Option (Except UnknownType (Tree CompiledLeaf × Option Creator)) :=
  let root : Structure := .ready (content.inner scope)
  if root.hasBoundary scope then
    (root.compile scope mount).map
      (·.map fun tree => (tree, some (.of .resetAll mount.location)))
  else some ((root.compileLeaf scope mount).map fun leaf => (.leaf leaf, none))

/-- The chunk of a structure under a name. -/
def build (scope : Scope) (name : String) (content : Structure) (options : ChunkOptions) :
    Option (Except BuildError Chunk) :=
  match content.audit scope with
  | [] =>
    let mount := mount name options
    (compile scope content mount).map fun compiled =>
      (compiled.map fun (tree, resetAll) => ⟨name, mount.location, tree, resetAll⟩).mapError
        .notCompiled
  | issues => some (.error (.invalidStructure issues))

/-- The events of building a chunk. -/
def buildEvents (scope : Scope) (name : String) (content : Structure) (options : ChunkOptions) :
    List Event :=
  content.auditEvents scope ++
    match build scope name content options with
    | some (.ok chunk) => [chunk.builtEvent]
    | _ => []

end Chunk

/-- A chunk that is still being described. -/
structure ChunkBuilder where
  /-- The name of the chunk. -/
  name : String
  /-- The structure of the chunk, once it is given. -/
  content? : Option Structure := none
  /-- How the chunk is mounted. -/
  options : ChunkOptions := {}

namespace ChunkBuilder

/-- Give the structure. -/
def withStructure (builder : ChunkBuilder) (content : Structure) : ChunkBuilder :=
  { builder with content? := some content }

/-- Give all options anew. -/
def withOptions (builder : ChunkBuilder) (options : ChunkOptions) : ChunkBuilder :=
  { builder with options }

/-- Mount the chunk at a location. -/
def withLocation (builder : ChunkBuilder) (location : String) : ChunkBuilder :=
  { builder with options := { builder.options with location? := some location } }

/-- Read the state of the chunk by a selector. -/
def withSelector (builder : ChunkBuilder) (selector : Selector) : ChunkBuilder :=
  { builder with options := { builder.options with selector? := some selector } }

/-- The described chunk. -/
def build (scope : Scope) (builder : ChunkBuilder) : Option (Except BuildError Chunk) :=
  match builder.content? with
  | some content => Chunk.build scope builder.name content builder.options
  | none => some (.error .missingStructure)

/-- The events of building the described chunk. -/
def buildEvents (scope : Scope) (builder : ChunkBuilder) : List Event :=
  match builder.content? with
  | some content => Chunk.buildEvents scope builder.name content builder.options
  | none => []

end ChunkBuilder

end StateSlice
