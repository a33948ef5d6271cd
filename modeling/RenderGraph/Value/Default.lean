import RenderGraph.DataType
import RenderGraph.Value.Basic

/-!
# Default values and values that fit a type

Every type has a default: zeros, an opaque black for `vec4`, the identity for matrices, nothing for
samplers. A value fits a type when its shape agrees with it.

## Main definitions

* `defaultLength`: the length of arrays that nothing else determines
* `DataType.defaultValue`
* `Value.fits`
-/

namespace RenderGraph

/-- The length of an array that neither its widget nor its value determines. -/
def defaultLength : Nat :=
  16

namespace DataType

/-- The default of one element of an array. -/
def elementDefault (e : ArrayElement) : Value :=
  match e with
  | .bool => .bool false
  | .int | .uint => .int 0
  | .float => .float .zero
  | .vec2 | .vec3 | .vec4 => .list (List.replicate e.type.components (.float .zero))

/-- The identity matrix with `n` rows, row by row. -/
def identityMatrix (n : Nat) : List Value :=
  (List.range (n * n)).map fun i => .float (if i % (n + 1) = 0 then .one else .zero)

/-- The default of a type; arrays get a given length, and at least one element. -/
def defaultValue (t : DataType) (length : Nat) : Value :=
  match t with
  | array e => .list (List.replicate (max 1 length) (elementDefault e))
  | sampler2D | samplerCube => .null
  | vec4 => .list [.float .zero, .float .zero, .float .zero, .float .one]
  | vec2 | vec3 | uvec2 | uvec3 | uvec4 => .list (List.replicate t.components (.float .zero))
  | mat2 => .list (identityMatrix 2)
  | mat3 => .list (identityMatrix 3)
  | mat4 => .list (identityMatrix 4)
  | bool => .bool false
  | int | uint => .int 0
  | float => .float .zero

/-- The default of a type for a length that is any number; its integer part counts. -/
def defaultValueOf (t : DataType) (length : Number) : Except Fault Value :=
  if t.isArray then do
    let n ← length.trunc
    pure (t.defaultValue n.toNat)
  else pure (t.defaultValue 1)

end DataType

namespace Value

/-- The shape of the value agrees with the type. -/
def fits (v : Value) (t : DataType) : Bool :=
  match t with
  | .sampler2D | .samplerCube =>
    match v with
    | null | text _ => true
    | _ => false
  | .array _ => v.isSequence
  | .bool =>
    match v with
    | bool _ | number _ => true
    | _ => false
  | .float | .int | .uint => v.isNumber
  | .vec2 | .vec3 | .vec4 | .uvec2 | .uvec3 | .uvec4 | .mat2 | .mat3 | .mat4 =>
    v.isNumberSequence && v.length == t.components

end Value

/-- The default of a type fits it. -/
theorem DataType.fits_defaultValue (t : DataType) (length : Nat) :
    (t.defaultValue length).fits t = true := by
  cases t <;> rfl

end RenderGraph
