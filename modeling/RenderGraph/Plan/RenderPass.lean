import RenderGraph.Graph.Stage
import RenderGraph.Shader.Uniform

/-!
# Passes

A pass draws one program into a target of its own. Its textures are given twice: by the consumer,
which is an input of a node or a name in a body, and by the sampler, which is bound to the pass that
it reads.

## Main definitions

* `RenderPass`, `RenderPass.summary`
* `RenderPass.refresh`: a pass with new values
-/

namespace RenderGraph

/-- One program with what is bound to it. -/
structure RenderPass where
  id : String
  vertex : String
  fragment : String
  uniforms : Keyed Uniform := .empty
  /-- The kind of target. -/
  outputTo : String := "FBO"
  /-- The sampler of each consumer. -/
  textures : Keyed String := .empty
  /-- The pass that each sampler reads. -/
  bindings : Keyed String := .empty
  feedback : Option Feedback := none
  loopCount : Option Nat := none
  loopIndex : Option Nat := none

namespace RenderPass

/-- A pass in one line: its id, how many uniforms and bindings it has, and its place in a loop. -/
def summary (p : RenderPass) : String :=
  let loop :=
    match p.loopCount with
    | none | some 0 => ""
    | some count =>
      " | loop " ++ Value.writtenOption toString p.loopIndex ++ "/" ++ toString count
  "<RenderPass " ++ p.id ++ " | U:" ++ toString p.uniforms.size ++ " T:" ++
    toString p.bindings.size ++ loop ++ ">"

/-- The pass with new values for its uniforms where there is one of the same type. -/
def refresh (news : Keyed Uniform) (p : RenderPass) : RenderPass :=
  { p with uniforms := Shader.refresh news p.uniforms }

end RenderPass

end RenderGraph
