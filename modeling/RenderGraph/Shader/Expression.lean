import RenderGraph.Config
import RenderGraph.DataType
import RenderGraph.Numeric.Number
import RenderGraph.Value.Default

/-!
# Expressions

Conversions between types and default literals, as text of the shading language.

A float is repeated in vectors, shorter vectors are padded with zeros and longer ones are cut. The
last component of a `vec4` is one wherever nothing else determines it. Memory is taken as unbounded, so
that the default of an array is written whatever its length is.

## Main definitions

* `Shader.cast`, `Shader.sample`
* `Shader.defaultLiteral`
-/

namespace RenderGraph.Shader

/-- A call of a constructor or function. -/
def call (f argument : String) : String :=
  f ++ "(" ++ argument ++ ")"

/-- The expression converted from one type to another. -/
def cast (e : String) (a b : DataType) : String :=
  if a = b then e
  else
    match a, b with
    | .float, .vec4 => "vec4(vec3(" ++ e ++ "), 1.0)"
    | .int, .vec2 => "vec2(float(" ++ e ++ "))"
    | .int, .vec3 => "vec3(float(" ++ e ++ "))"
    | .int, .vec4 => "vec4(vec3(float(" ++ e ++ ")), 1.0)"
    | .vec2, .float => e ++ ".x"
    | .vec2, .vec3 => "vec3(" ++ e ++ ", 0.0)"
    | .vec2, .vec4 => "vec4(" ++ e ++ ", 0.0, 1.0)"
    | .vec3, .vec4 => "vec4(" ++ e ++ ", 1.0)"
    | .vec3, .float => e ++ ".r"
    | .vec3, .vec2 => e ++ ".xy"
    | .vec4, .vec3 => e ++ ".rgb"
    | .vec4, .float => e ++ ".r"
    | .vec4, .vec2 => e ++ ".xy"
    | _, b => call b.name e

@[simp]
theorem cast_self (e : String) (t : DataType) : cast e t t = e := by
  simp [cast]

/-- What a texture shows at a coordinate, as a value of a type; samplers get the texture itself. -/
def sample (texture : String) (t : DataType) (coordinate : String := "uv") : String :=
  if t.isSampler then texture
  else cast ("texture(" ++ texture ++ ", " ++ coordinate ++ ")") .vec4 t

/-- The zero of an array element. -/
def elementZero : ArrayElement → String
  | .float => "0.0"
  | .int => "0"
  | .uint => "0u"
  | .bool => "false"
  | .vec2 => "vec2(0.0)"
  | .vec3 => "vec3(0.0)"
  | .vec4 => "vec4(0.0)"

/-- The default of a type, with the names of the samplers that stand for missing textures. An array
has a given length, and at least one element. -/
def defaultLiteralNamed (emptyTexture emptyCubeTexture : String) (t : DataType)
    (length : Option Nat) : String :=
  match t with
  | .sampler2D => emptyTexture
  | .samplerCube => emptyCubeTexture
  | .array e =>
    let n := max 1 (length.getD defaultLength)
    call (e.type.name ++ "[" ++ toString n ++ "]")
      (", ".intercalate (List.replicate n (elementZero e)))
  | .float => "0.0"
  | .int => "0"
  | .uint => "0u"
  | .bool => "false"
  | .vec2 => "vec2(0.0)"
  | .vec3 => "vec3(0.0)"
  | .vec4 => "vec4(0.0, 0.0, 0.0, 1.0)"
  | .uvec2 => "uvec2(0u)"
  | .uvec3 => "uvec3(0u)"
  | .uvec4 => "uvec4(0u, 0u, 0u, 1u)"
  | .mat2 => "mat2(1.0)"
  | .mat3 => "mat3(1.0)"
  | .mat4 => "mat4(1.0)"

/-- The default of a type for a length that is any number; it is rounded. -/
def defaultLiteralOf (emptyTexture emptyCubeTexture : String) (t : DataType)
    (length : Option Number) : Except Fault String :=
  match length with
  | some n =>
    if t.isArray then do
      let n ← n.round
      pure (defaultLiteralNamed emptyTexture emptyCubeTexture t (some n.toNat))
    else pure (defaultLiteralNamed emptyTexture emptyCubeTexture t none)
  | none => pure (defaultLiteralNamed emptyTexture emptyCubeTexture t none)

/-- The default of a type under a configuration. -/
def defaultLiteral (config : Config) (t : DataType) (length : Option Nat := none) : String :=
  defaultLiteralNamed config.emptyTexture config.emptyCubeTexture t length

end RenderGraph.Shader
