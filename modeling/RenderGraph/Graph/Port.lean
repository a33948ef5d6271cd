import RenderGraph.Value.Bound

/-!
# Ports

A port is an input or an output of a node: an id, a name to show and a type.

## Main definitions

* `Port`, `Port.ofValue`
-/

namespace RenderGraph

/-- An input or an output of a node. -/
structure Port where
  id : String
  /-- The name to show. -/
  name : Option String
  type : DataType
  deriving DecidableEq, Repr

namespace Port

/-- A port that is shown by its id. -/
def ofId (id : String) (type : DataType) : Port :=
  { id, name := some id, type }

/-- The port that a document describes; a port without a name is shown by its id. -/
def ofValue (v : Value) : Except Fault Port := do
  match ← v.require "id" with
  | .text id =>
    let name ← match ← v.field? "name" with
      | some name => name.text?
      | none => pure (some id)
    let type ← DataType.ofValue (← v.field "type")
    pure { id, name, type }
  | _ => throw .wrongShape

/-- The port with another type. -/
def withType (p : Port) (t : DataType) : Port :=
  { p with type := t }

/-- The first port with a given id. -/
def find? (ports : List Port) (id : String) : Option Port :=
  ports.find? (·.id == id)

end Port

end RenderGraph
