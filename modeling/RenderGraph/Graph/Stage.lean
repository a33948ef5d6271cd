import RenderGraph.Value.Written

/-!
# Stages

A stage is one of the bodies of a multi-stage node. It may keep a feedback buffer, which shows the
stage what it drew before, and it may be repeated.

## Main definitions

* `Feedback`, `Feedback.ofValue`, `Feedback.written`
* `Stage`, `Stage.ofValue`
-/

namespace RenderGraph

namespace Value

/-- The integer that a value denotes. -/
def toInt : Value → Except Fault Int
  | bool b => .ok (if b then 1 else 0)
  | number n => n.trunc
  | text s =>
    match Decimal.readInt? s with
    | some n => .ok n
    | none => .error .notNumeric
  | _ => .error .wrongShape

end Value

/-- The feedback buffer of a stage. What is unset is settled by the stage's pragmas. -/
structure Feedback where
  enabled : Bool := false
  bufferName : Option String := none
  /-- The colour that the buffer starts with. -/
  initial : Option (List Value) := none
  /-- The buffer survives the frame. -/
  persistent : Option Bool := none
  clearEachFrame : Option Bool := none

namespace Feedback

/-- The feedback buffer that a document describes. -/
def ofValue (v : Value) : Except Fault Feedback := do
  let initial ← match ← v.field "initValue" with
    | .null => pure none
    | value => value.parts.map some
  let enabled ← (← v.field "enabled").truth
  let bufferName ← (← v.field "bufferName").text?
  let persistent ← (← v.field "persistent").bool?
  let clearEachFrame ← (← v.field "clearEachFrame").bool?
  pure { enabled, bufferName, initial, persistent, clearEachFrame }

/-- The written form of the settings of a feedback buffer. -/
def written (f : Feedback) : String :=
  let bool (b : Bool) := (Value.bool b).written
  "PingPongConfig(enabled=" ++ bool f.enabled ++
    ", buffer_name=" ++ Value.writtenOption Text.quoted f.bufferName ++
    ", init_value=" ++ Value.writtenOption Value.writtenTuple f.initial ++
    ", persistent=" ++ Value.writtenOption bool f.persistent ++
    ", clear_each_frame=" ++ Value.writtenOption bool f.clearEachFrame ++ ")"

end Feedback

/-- One of the bodies of a multi-stage node. -/
structure Stage where
  id : String
  /-- The body, if there is one. -/
  source : Option String
  feedback : Option Feedback := none
  /-- How often the stage is repeated, as it was set. -/
  loop : Int := 1
  /-- What the editor calls the stage; it has no meaning here. -/
  name : Value := .null

namespace Stage

/-- The stage that a document describes. -/
def ofValue (v : Value) : Except Fault Stage := do
  let feedback ← v.field "pingPong"
  let id := (← v.require "id").asText
  let source ← match ← v.field? "glsl" with
    | some source => source.text?
    | none => pure (some "")
  let feedback ← if ← feedback.truth then (Feedback.ofValue feedback).map some else pure none
  let loop ← v.field "loop"
  let loop ← if ← loop.truth then loop.toInt else pure 1
  let name ← v.field "name"
  pure { id, source, feedback, loop, name }

/-- The body of a stage that has to have one. -/
def body (s : Stage) : Except Fault String :=
  match s.source with
  | some source => .ok source
  | none => .error .wrongShape

/-- The body of a stage; an absent one is empty. -/
def text (s : Stage) : String :=
  s.source.getD ""

end Stage

end RenderGraph
