import RenderGraph.Numeric.Number

/-!
# Configuration

## Main definitions

* `Config`: what a user may settle about the compilation of graphs
-/

namespace RenderGraph

/-- What a user may settle about the compilation of graphs. -/
structure Config where
  /-- The capacity of arrays that neither widget nor value determine. It is rounded where a whole number
  is needed. -/
  defaultArrayLength : Number := .int 16
  glslVersion : String := "300 es"
  floatPrecision : String := "mediump"
  /-- The sampler that stands for a missing texture. -/
  emptyTexture : String := "u_empty_tex"
  /-- The sampler that stands for a missing cube texture. -/
  emptyCubeTexture : String := "u_empty_cube"
  /-- How many compiled graphs are kept. -/
  cacheCapacity : Number := .int 16
  deriving DecidableEq, Repr

end RenderGraph
