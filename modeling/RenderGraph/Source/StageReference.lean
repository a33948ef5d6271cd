import RenderGraph.Source.Overload

/-!
# References to other stages

A body may read what other stages of its node have drawn: `u_pass_<id>` names a stage,
`u_firstPass` and `u_prevPass` mean the first and the previous one.

## Main definitions

* `Source.StageReference`, `Source.stageReferences`
* `Source.Interface`: the ports of the default overload and the references of a body
-/

namespace RenderGraph.Source

/-- A reference to a stage of the same node. -/
inductive StageReference
  | named (id : String)
  | first
  | previous
  deriving DecidableEq, Repr

namespace StageReference

/-- The texture by which a body reads the stage. -/
def uniform : StageReference → String
  | named id => "u_pass_" ++ id
  | first => "u_firstPass"
  | previous => "u_prevPass"

/-- The id of the stage, or the placeholder of one that the order of stages determines. -/
def target : StageReference → String
  | named id => id
  | first => "__first__"
  | previous => "__prev__"

/-- The written kind of a reference. -/
def kindName : StageReference → String
  | named _ => "specific"
  | first => "first"
  | previous => "prev"

end StageReference

/-- A reference by name, and the name. -/
def namedReference : Text.Pattern String :=
  Text.wordStart <| Text.word "u_pass_" <| Text.ident fun id =>
    Text.wordEnd (String.ofList id)

/-- The references of a body: the named ones, each once and in order, then the first and the previous
stage. -/
def stageReferences (code : String) : List StageReference :=
  let clean := stripChars code.toList
  (Text.distinct (Text.matchesOf namedReference clean)).map .named ++
    (if Text.occurs (Text.wholeWord "u_firstPass") clean then [.first] else []) ++
    (if Text.occurs (Text.wholeWord "u_prevPass") clean then [.previous] else [])

/-- The texture by which a stage reads its own feedback buffer. -/
def previousFrame : String :=
  "u_previousFrame"

/-- The ports of the default overload and the references of a body. -/
structure Interface where
  inputs : List Port := []
  outputs : List Port := []
  /-- The body has more than one overload. -/
  overloaded : Bool := false
  /-- The body has an overload. -/
  valid : Bool := false
  label : Option String := none
  order : Option Nat := none
  index : Option Nat := none
  references : List StageReference := []
  deriving DecidableEq, Repr

/-- The interface of a body. Textures that carry other stages or the feedback buffer are no ports. -/
def interface (code : String) : Except Fault Interface := do
  let all ← overloads code
  let references := stageReferences code
  match defaultOverload? all with
  | none => pure { references }
  | some best =>
    let reserved := previousFrame :: references.map (·.uniform)
    pure {
      inputs := best.inputs.filter (fun p => p.id ∉ reserved),
      outputs := best.outputs,
      overloaded := 1 < all.length,
      valid := true,
      label := best.label,
      order := best.order,
      index := some best.index,
      references }

end RenderGraph.Source
