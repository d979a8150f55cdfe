import StateSlice.Chunk

/-!
# Hosts of chunks

A host holds the states of chunks under their names and dispatches every action to all of them. Of
two chunks with one name both read the state there and the later one writes it.
-/
namespace StateSlice.Host

open Json (Value)

/-- The chunks that are described, or the first error. -/
def build (scope : Scope) (builders : List ChunkBuilder) :
    Option (Except BuildError (List Chunk)) :=
  ExceptT.run (builders.mapM fun builder => ExceptT.mk (builder.build scope))

/-- The events of building chunks up to the first error. -/
def buildEvents (scope : Scope) : List ChunkBuilder → List Event
  | [] => []
  | builder :: builders =>
    match builder.build scope with
    | some (.ok _) => builder.buildEvents scope ++ buildEvents scope builders
    | _ => builder.buildEvents scope

/-- The reducer of the whole state of a host. -/
def reducer (chunks : List Chunk) : Reducer :=
  .combine (chunks.map fun chunk => (chunk.name, chunk.reducer))

/-- The state of a host after an action. -/
def dispatch (chunks : List Chunk) (state : Value) (action : Action) : Value :=
  (reducer chunks).reduce (some state) action

/-- The state of a host before any action that asks for something. -/
def initialState (chunks : List Chunk) : Value := dispatch chunks (.object []) .init

end StateSlice.Host
