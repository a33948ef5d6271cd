import RenderGraph.Text.Blank

/-!
# The types of shader values

The types that ports, bound values and uniforms may have. An array type has an element type; its
length is settled when a program is generated.

The *rank* of a type is the number of components that type inference reckons with: it is positive
only for the float vectors, the float and the int.

## Main definitions

* `ArrayElement`, `DataType`
* `DataType.name`, `DataType.ofName?`, `DataType.parse`
* `DataType.components`, `DataType.rank`, `DataType.ofRank`
-/

namespace RenderGraph

/-- The types whose arrays may be used. -/
inductive ArrayElement
  | float | int | uint | bool | vec2 | vec3 | vec4
  deriving DecidableEq, Repr

/-- The types of shader values. -/
inductive DataType
  | float | int | uint | bool
  | vec2 | vec3 | vec4
  | uvec2 | uvec3 | uvec4
  | mat2 | mat3 | mat4
  | sampler2D | samplerCube
  | array (element : ArrayElement)
  deriving DecidableEq, Repr

/-- The element as a type of its own. -/
def ArrayElement.type : ArrayElement → DataType
  | .float => .float
  | .int => .int
  | .uint => .uint
  | .bool => .bool
  | .vec2 => .vec2
  | .vec3 => .vec3
  | .vec4 => .vec4

namespace DataType

/-- The text of a type that is no array. -/
def plainName : DataType → String
  | float => "float"
  | int => "int"
  | uint => "uint"
  | bool => "bool"
  | vec2 => "vec2"
  | vec3 => "vec3"
  | vec4 => "vec4"
  | uvec2 => "uvec2"
  | uvec3 => "uvec3"
  | uvec4 => "uvec4"
  | mat2 => "mat2"
  | mat3 => "mat3"
  | mat4 => "mat4"
  | sampler2D => "sampler2D"
  | samplerCube => "samplerCube"
  | array _ => ""

/-- The text of a type. -/
def name : DataType → String
  | array e => e.type.plainName ++ "[]"
  | t => t.plainName

instance : ToString DataType :=
  ⟨name⟩

/-- Every type. -/
def all : List DataType :=
  [float, int, uint, bool, vec2, vec3, vec4, uvec2, uvec3, uvec4, mat2, mat3, mat4,
    sampler2D, samplerCube, array .float, array .int, array .uint, array .bool,
    array .vec2, array .vec3, array .vec4]

/-- The type with a given text. -/
def ofName? (s : String) : Option DataType :=
  all.find? (·.name == s)

theorem mem_all (t : DataType) : t ∈ all := by
  rcases t with _ | _ | _ | _ | _ | _ | _ | _ | _ | _ | _ | _ | _ | _ | _ | e
  case array => cases e <;> decide
  all_goals decide

theorem ofName?_name (t : DataType) : ofName? t.name = some t := by
  rcases t with _ | _ | _ | _ | _ | _ | _ | _ | _ | _ | _ | _ | _ | _ | _ | e
  case array => cases e <;> decide
  all_goals decide

/-- The type that a text means: blanks around it do not count, `vec1` and every unknown text mean
`float`. -/
def parse (s : String) : DataType :=
  (ofName? (Text.trim s)).getD float

/-! ### Properties of types -/

def isArray : DataType → Bool
  | array _ => true
  | _ => false

/-- The element type of an array; any other type itself. -/
def element : DataType → DataType
  | array e => e.type
  | t => t

/-- The type of the arrays of a type. -/
def arrayOf? : DataType → Option DataType
  | float => some (array .float)
  | int => some (array .int)
  | uint => some (array .uint)
  | bool => some (array .bool)
  | vec2 => some (array .vec2)
  | vec3 => some (array .vec3)
  | vec4 => some (array .vec4)
  | _ => none

def isSampler : DataType → Bool
  | sampler2D | samplerCube => true
  | _ => false

def isMatrix : DataType → Bool
  | mat2 | mat3 | mat4 => true
  | _ => false

def isVector : DataType → Bool
  | vec2 | vec3 | vec4 | uvec2 | uvec3 | uvec4 => true
  | _ => false

def isScalar : DataType → Bool
  | float | int | uint | bool => true
  | _ => false

def isUnsigned : DataType → Bool
  | uint | uvec2 | uvec3 | uvec4 => true
  | _ => false

/-- The number of scalars in one element. -/
def components (t : DataType) : Nat :=
  match t.element with
  | vec2 | uvec2 => 2
  | vec3 | uvec3 => 3
  | vec4 | uvec4 | mat2 => 4
  | mat3 => 9
  | mat4 => 16
  | _ => 1

/-- The number of components that type inference reckons with, zero where it has none. -/
def rank : DataType → Nat
  | float | int => 1
  | vec2 => 2
  | vec3 => 3
  | vec4 => 4
  | _ => 0

/-- The float type with a given number of components; `float` where there is none. -/
def ofRank : Int → DataType
  | 2 => vec2
  | 3 => vec3
  | 4 => vec4
  | _ => float

theorem element_of_arrayOf? {t u : DataType} (h : t.arrayOf? = some u) : u.element = t := by
  cases t <;> simp [arrayOf?] at h <;> subst h <;> rfl

theorem components_pos (t : DataType) : 0 < t.components := by
  unfold components
  split <;> decide

theorem rank_ofRank {n : Nat} (h : 1 ≤ n) (h' : n ≤ 4) : (ofRank n).rank = n := by
  rcases n with _ | _ | _ | _ | _ | n
  · omega
  · rfl
  · rfl
  · rfl
  · rfl
  · omega

end DataType

end RenderGraph
