import RenderGraph.Graph.Basic

/-!
# Types at the ends of edges

Type inference asks what type an edge brings and what type it is wanted as. An input proxy may list on
its input side what it exposes, and an output proxy on its output side what it collects.

## Main definitions

* `Typing.sourceType`: what a node produces on an output
* `Typing.targetType?`: what a node wants on an input
* `Typing.retype`: ports with new types
-/

namespace RenderGraph.Typing

/-- The type that a node produces on an output. -/
def sourceType (n : Node) (port : Option String) : DataType :=
  match port with
  | none | some "" => (n.outputs.head?.map (·.type)).getD n.outputType
  | some id =>
    let exposed := if n.kind = .graphInput then Port.find? n.inputs id else none
    (((Port.find? n.outputs id) <|> exposed).map (·.type)).getD n.outputType

/-- The type that a node wants on an input, if it has that input. -/
def targetType? (n : Node) (port : Option String) : Option DataType :=
  let collected :=
    match port with
    | none | some "" => none
    | some id => if n.kind = .graphOutput then n.findOutput (some id) else none
  ((n.findInput port) <|> collected).map (·.type)

/-- The ports with new types where there are some. -/
def retype (ports : List Port) (updates : Keyed DataType) : List Port :=
  ports.map fun p =>
    match updates.get? p.id with
    | some t => p.withType t
    | none => p

theorem map_id_retype (ports : List Port) (updates : Keyed DataType) :
    (retype ports updates).map (·.id) = ports.map (·.id) := by
  simp only [retype, List.map_map]
  apply List.map_congr_left
  intro p _
  simp only [Function.comp]
  split <;> rfl

end RenderGraph.Typing
