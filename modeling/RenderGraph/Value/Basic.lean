import RenderGraph.Numeric.Decimal
import RenderGraph.Value.Tensor

/-!
# Values

A `Value` is what a document holds and what a user binds to an input: nothing, a truth value, a
number, a text, a list, a map or a tensor of numbers of one representation.

## Main definitions

* `Value`
* `Tensor.items`, `Tensor.parts?`, `Tensor.nested`: tensors as values
* `Value.truth`: which values count as true
* `Value.isNumber`, `Value.isNumberSequence`
* `Value.field?`, `Value.require`: fields of a map
* `Value.parts`: what a value consists of
-/

namespace RenderGraph

/-- What a document holds and what a user binds to an input. -/
inductive Value
  | null
  | bool (b : Bool)
  | number (n : Number)
  | text (s : String)
  | list (items : List Value)
  | map (fields : List (String × Value))
  | tensor (t : Tensor)
  deriving Repr

/-! ### Tensors as values -/

namespace Buffer

/-- The elements as values. -/
def items : Buffer → List Value
  | float32 xs => xs.map fun x => .number (.float x.toDouble)
  | float64 xs => xs.map fun x => .number (.float x)
  | int32 xs => xs.map fun n => .number (.int n.toInt)
  | uint32 xs => xs.map fun n => .number (.int n.toNat)
  | bool xs => xs.map .bool

@[simp]
theorem length_items (b : Buffer) : b.items.length = b.size := by
  cases b <;> simp [items, size]

end Buffer

namespace Tensor

/-- The elements as values, in order. -/
def items (t : Tensor) : List Value :=
  t.buffer.items

/-- What a tensor consists of along its first axis: scalars if that is the only axis, else tensors. A
tensor without axes has no parts. -/
def parts? (t : Tensor) : Option (List Value) :=
  match t.shape with
  | [] => none
  | [_] => some t.items
  | _ => some (t.rows.map .tensor)

/-- Elements arranged as nested lists, one level for each axis. -/
def nest : List Nat → List Value → Value
  | [], xs => xs.headD .null
  | n :: shape, xs =>
    let width := volume shape
    .list ((List.range n).map fun i => nest shape ((xs.drop (i * width)).take width))

/-- The tensor as nested lists. -/
def nested (t : Tensor) : Value :=
  nest t.shape t.items

end Tensor

namespace Value

instance : Inhabited Value :=
  ⟨null⟩

/-- An integer. -/
def int (n : Int) : Value :=
  number (.int n)

/-- A number in double precision. -/
def float (x : Double) : Value :=
  number (.float x)

def isNumber : Value → Bool
  | number _ => true
  | _ => false

def isNull : Value → Bool
  | null => true
  | _ => false

/-- A list of numbers, or a tensor of numbers with one axis. -/
def isNumberSequence : Value → Bool
  | list items => items.all isNumber
  | tensor t => t.rank = 1 && t.buffer.isNumeric
  | _ => false

/-- A list or a tensor. -/
def isSequence : Value → Bool
  | list _ | tensor _ => true
  | _ => false

/-- The number of items of a sequence, along the first axis. -/
def length : Value → Nat
  | list items => items.length
  | tensor t => t.shape.headD 0
  | _ => 0

/-! ### Truth -/

/-- Which values count as true: numbers other than zero, and texts, lists and maps that are not
empty. A tensor has a truth value only if it has exactly one element. -/
def truth : Value → Except Fault Bool
  | null => .ok false
  | bool b => .ok b
  | number n => .ok !n.isZero
  | text s => .ok !s.isEmpty
  | list items => .ok !items.isEmpty
  | map fields => .ok !fields.isEmpty
  | tensor t =>
    match t.items with
    | [bool b] => .ok b
    | [number n] => .ok !n.isZero
    | _ => .error .notNumeric

/-! ### Fields of maps -/

/-- The field of a map, if it is present. -/
def field? (v : Value) (name : String) : Except Fault (Option Value) :=
  match v with
  | map fields => .ok ((fields.find? (·.1 == name)).map (·.2))
  | _ => .error .noFields

/-- The field of a map; an absent one is null. -/
def field (v : Value) (name : String) : Except Fault Value :=
  (v.field? name).map (·.getD null)

/-- The field of a map that has to have it. -/
def require (v : Value) (name : String) : Except Fault Value :=
  match v.field? name with
  | .ok (some a) => .ok a
  | .ok none => .error (.missingField name)
  | .error _ => .error .wrongShape

/-! ### Parts -/

/-- What a value consists of: the items of a list, the characters of a text, the keys of a map, the parts
of a tensor. Other values have no parts. -/
def parts : Value → Except Fault (List Value)
  | list items => .ok items
  | text s => .ok (s.toList.map fun c => text c.toString)
  | map fields => .ok (fields.map fun f => text f.1)
  | tensor t =>
    match t.parts? with
    | some items => .ok items
    | none => .error .wrongShape
  | _ => .error .wrongShape

/-- The parts of a value; null and every other value that counts as false has none. -/
def partsOrNone (v : Value) : Except Fault (List Value) := do
  if ← v.truth then v.parts else pure []

/-! ### Optional fields -/

/-- A text, where null stands for an absent one. -/
def text? : Value → Except Fault (Option String)
  | null => .ok none
  | text s => .ok (some s)
  | _ => .error .wrongShape

/-- A truth value, where null stands for an absent one. -/
def bool? : Value → Except Fault (Option Bool)
  | null => .ok none
  | bool b => .ok (some b)
  | _ => .error .wrongShape

end Value

end RenderGraph
