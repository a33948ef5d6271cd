import RenderGraph.Plan.RenderPass
import RenderGraph.Shader.Fragment
import RenderGraph.Source.StageReference
import RenderGraph.Text.Template

/-!
# Repeated stages

A stage that is repeated becomes one pass for each iteration. The first iteration keeps the id of the
stage's pass; each later one reads the iteration before it as the previous pass.

## Main definitions

* `Plan.Loop`, `Plan.Loop.iterationId`
* `Plan.rebindPrevious`: a program with another previous pass
* `Plan.iteration`
-/

namespace RenderGraph.Plan

open Text (blanks0 blanks1 word done)

/-- The name by which a body reads the previous pass. -/
def previousPass : String :=
  Source.StageReference.uniform .previous

/-- The uniform that tells an iteration its number. -/
def loopIndexUniform : String :=
  "u_loopIndex"

/-- The uniform that tells an iteration how many there are. -/
def loopCountUniform : String :=
  "u_loopCount"

/-- A stage's pass and how often it is repeated. -/
structure Loop where
  base : String
  count : Int
  deriving DecidableEq, Repr

namespace Loop

/-- The stage is drawn more than once. -/
def isLoop (l : Loop) : Bool :=
  1 < l.count

/-- The id of the pass of an iteration. -/
def iterationId (l : Loop) (index : Int) : String :=
  if index = 0 then l.base else l.base ++ "_loop" ++ toString index

/-- The id of the pass before an iteration. -/
def previousId (l : Loop) (index : Int) : String :=
  l.iterationId (index - 1)

/-- The id of the pass of the last iteration. -/
def lastId (l : Loop) : String :=
  l.iterationId (l.count - 1)

end Loop

/-! ### The previous pass of a program -/

/-- A line that defines the previous pass. -/
def previousDefine : Text.Pattern Unit :=
  Text.atLineStart <| blanks0 <| word "#define" <| blanks1 <| word previousPass <|
    blanks1 fun rest => done () (Text.behindLine rest)

/-- The line that defines the previous pass as a sampler. -/
def defineLine (sampler : String) : String :=
  "#define " ++ previousPass ++ " " ++ sampler

/-- A program with a line put behind the first occurrence of another. -/
def putBehind (anchor line code : String) : String :=
  String.ofList (Text.replaceFirst (Text.literal anchor) (anchor ++ line ++ "\n").toList code.toList)

/-- The program with the previous pass defined as a sampler, which is declared behind an anchor. A
definition that is already there is exchanged, with the new one as a template. -/
def rebindPrevious (code sampler anchor : String) : Except Fault String := do
  let defined ←
    if Text.occurs previousDefine code.toList then
      Text.substitute previousDefine (defineLine sampler) code
    else pure (putBehind anchor (defineLine sampler) code)
  let declaration := Shader.samplerLine sampler
  if Text.occurs (Text.literal declaration) defined.toList then pure defined
  else pure (putBehind anchor declaration defined)

/-! ### Iterations -/

/-- The uniforms of an iteration. -/
def iterationUniforms (loop : Loop) (index : Nat) (uniforms : Keyed Uniform) : Keyed Uniform :=
  if loop.isLoop then
    (uniforms.insert loopIndexUniform { type := .int, value := .int index }).insert
      loopCountUniform { type := .int, value := .int loop.count }
  else uniforms

/-- An iteration that reads no other. -/
def firstIteration (template : RenderPass) (loop : Loop) (index : Nat) : RenderPass :=
  { template with
    id := loop.iterationId index,
    uniforms := iterationUniforms loop index template.uniforms,
    loopCount := if loop.isLoop then some loop.count.toNat else none,
    loopIndex := if loop.isLoop then some index else none }

/-- An iteration that reads the one before it through a sampler. -/
def laterIteration (config : Config) (template : RenderPass) (loop : Loop) (index : Nat)
    (sampler : String) : Except Fault RenderPass := do
  let p := firstIteration template loop index
  let fragment ← rebindPrevious p.fragment sampler (Shader.cubeAnchor config)
  pure { p with
    fragment,
    textures := p.textures.insert previousPass sampler,
    bindings := p.bindings.insert sampler (loop.previousId index),
    uniforms := p.uniforms.insert previousPass { type := .sampler2D, value := .text sampler } }

/-- An iteration; `sampler` gives the sampler that reads a pass. -/
def iteration {σ : Type} (config : Config) (sampler : String → ExceptT Fault (StateM σ) String)
    (template : RenderPass) (loop : Loop) (index : Nat) : ExceptT Fault (StateM σ) RenderPass := do
  if index = 0 then pure (firstIteration template loop index)
  else
    let name ← sampler (loop.previousId index)
    (laterIteration config template loop index name : Except Fault _)

end RenderGraph.Plan
