import RenderGraph.Value.Capacity

/-!
# Packing values for upload

Vectors and matrices are packed into tensors of single precision or of unsigned words. Arrays are
packed into tensors of exactly their capacity: rows are cut or padded to the width of an element,
surplus elements are dropped and missing ones are zero. All other values are uploaded as they are.
Memory is taken as unbounded: an array is packed whatever its capacity is.

## Main definitions

* `Value.finiteOrZero`: a value as a finite number
* `Value.flatten`: the scalars of an array value
* `packArray`, `packSequence`, `pack`
-/

namespace RenderGraph

namespace Value

/-- The value as a number in double precision: texts are read, and what is no number counts as
zero. -/
def toDouble : Value → Except Fault Double
  | bool b => .ok (if b then .one else .zero)
  | number n => n.toDouble
  | text s => .ok ((Decimal.readDouble? s).getD .zero)
  | tensor t =>
    match t.items with
    | [bool b] => .ok (if b then .one else .zero)
    | [number n] => n.toDouble
    | _ => .ok .zero
  | _ => .ok .zero

/-- The value as a finite number; what is no finite number counts as zero. -/
def finiteOrZero (v : Value) : Except Fault Double :=
  v.toDouble.map fun x => if x.isFinite then x else .zero

/-- A row cut or padded to a width. -/
def row (width : Nat) (items : List Value) : List Value :=
  items.take width ++ List.replicate (width - items.length) (.float .zero)

/-- What one item of an array value contributes: a row of the width of an element, or a scalar. -/
def rowOf (width : Nat) (item : Value) : Except Fault (List Value) :=
  match item with
  | list items => .ok (row width items)
  | tensor t => (tensor t).parts.map (row width)
  | v => .ok [v]

/-- The scalars of an array value, in order. -/
def flatten (width : Nat) : Value → Except Fault (List Value)
  | list items => (items.mapM (rowOf width)).map List.flatten
  | tensor t => .ok t.items
  | _ => .ok []

end Value

/-! ### Arrays -/

/-- A list followed by as many fillers as make it up to a size. Memory is taken as unbounded. -/
def padTo {α : Type} (size : Nat) (filler : α) (xs : List α) : List α :=
  xs ++ List.replicate (size - xs.length) filler

@[simp]
theorem length_padTo {α : Type} (size : Nat) (filler : α) (xs : List α) :
    (padTo size filler xs).length = max size xs.length := by
  simp only [padTo, List.length_append, List.length_replicate]
  omega

/-- The buffer of an array of a given capacity. -/
def packArray (e : ArrayElement) (v : Value) (capacity : Nat) : Except Fault Buffer := do
  let width := e.type.components
  let size := capacity * width
  let scalars := (← v.flatten width).take size
  match e with
  | .uint =>
    let xs ← scalars.mapM fun v => do
      toUInt32 (max 0 (← (← v.finiteOrZero).trunc))
    pure (.uint32 (padTo size 0 xs))
  | .int =>
    let xs ← scalars.mapM fun v => do
      toInt32 (← (← v.finiteOrZero).trunc)
    pure (.int32 (padTo size 0 xs))
  | .bool =>
    let xs ← scalars.mapM fun v => do
      pure (if ← v.truth then (1 : Int32) else 0)
    pure (.int32 (padTo size 0 xs))
  | .float | .vec2 | .vec3 | .vec4 =>
    let xs ← scalars.mapM fun v => v.finiteOrZero.map Double.toSingle
    pure (.float32 (padTo size .zero xs))

/-! ### Vectors and matrices -/

/-- An item of a number sequence. -/
def Value.toNumber : Value → Except Fault Number
  | .number n => .ok n
  | _ => .error .wrongShape

/-- The integer part of a number, modulo the range of words. What does not fit a signed double word, or
is not finite, counts as zero. -/
def Double.wrapUInt32 (x : Double) : UInt32 :=
  match x.trunc with
  | .ok n => if n.natAbs < Nat.pow 2 63 then UInt32.ofNat (n % 0x100000000).toNat else 0
  | .error _ => 0

/-- The elements as unsigned words. -/
def Buffer.toUInt32 : Buffer → Buffer
  | .float32 xs => .uint32 (xs.map fun x => x.toDouble.wrapUInt32)
  | .float64 xs => .uint32 (xs.map Double.wrapUInt32)
  | .int32 xs => .uint32 (xs.map Int32.toUInt32)
  | .uint32 xs => .uint32 xs
  | .bool xs => .uint32 (xs.map fun b => if b then 1 else 0)

/-- The integer nearest in single precision. -/
def Single.ofInt (n : Int) : Single :=
  ⟨UInt32.ofNat (singleFormat.code n.natAbs 1 + if n < 0 then Nat.pow 2 31 else 0)⟩

/-- The elements in single precision. -/
def Buffer.toFloat32 : Buffer → Buffer
  | .float32 xs => .float32 xs
  | .float64 xs => .float32 (xs.map Double.toSingle)
  | .int32 xs => .float32 (xs.map fun n => Single.ofInt n.toInt)
  | .uint32 xs => .float32 (xs.map fun n => Single.ofInt n.toNat)
  | .bool xs => .float32 (xs.map fun b => Single.ofInt (if b then 1 else 0))

@[simp]
theorem Buffer.size_toUInt32 (b : Buffer) : b.toUInt32.size = b.size := by
  cases b <;> simp [toUInt32, size]

@[simp]
theorem Buffer.size_toFloat32 (b : Buffer) : b.toFloat32.size = b.size := by
  cases b <;> simp [toFloat32, size]

/-- The tensor of a number sequence, with unsigned words or in single precision. -/
def packSequence (unsigned : Bool) (v : Value) : Except Fault Value :=
  match v with
  | .tensor t =>
    if unsigned then .ok (.tensor (t.mapBuffer Buffer.toUInt32 Buffer.size_toUInt32))
    else .ok (.tensor (t.mapBuffer Buffer.toFloat32 Buffer.size_toFloat32))
  | .list items => do
    let numbers ← items.mapM Value.toNumber
    let buffer ← Buffer.ofNumbers (if unsigned then .uint32 else .float32) numbers
    pure (.tensor (.flat buffer))
  | v => .ok v

/-- The value packed for upload as a uniform of a type. An array without a given length takes as many
elements as its value implies. -/
def pack (t : DataType) (v : Value) (length : Option Nat) : Except Fault Value :=
  match t with
  | .array e =>
    let count := v.elementCount t
    let implied := if count = 0 then defaultLength else count
    (packArray e v (max 1 (length.getD implied))).map fun b => .tensor (.flat b)
  | t =>
    if v.isNumberSequence && (t.isUnsigned || t.isVector || t.isMatrix) then
      packSequence t.isUnsigned v
    else .ok v

/-- Packing to a length that is any number; it is rounded. -/
def packTo (t : DataType) (v : Value) (length : Option Number) : Except Fault Value :=
  match length with
  | some n =>
    if t.isArray then do
      let n ← n.round
      pack t v (some n.toNat)
    else pack t v none
  | none => pack t v none

end RenderGraph
