import RenderGraph.Numeric.Number

/-!
# Tensors

A tensor holds elements of one representation, arranged along axes, the last axis running fastest. Its
elements fill its shape exactly. There are the representations in which values are packed, and those in
which a document may give a tensor: numbers in single and double precision, words of 32 bits and truth
values. Other representations, such as integers of 64 bits, are left out.

Numbers are converted when a tensor is made of them: words take the integer part, which has to fit, and
truth values tell whether a number differs from zero.

## Main definitions

* `Representation`, `Buffer`, `Buffer.ofNumbers`
* `volume`: the number of elements that a shape has room for
* `Tensor`, `Tensor.ofNumbers`, `Tensor.flat`
* `Tensor.rows`: the tensors along the first axis

## Main results

* `Tensor.length_rows`, `Tensor.shape_eq_of_mem_rows`
-/

namespace RenderGraph

/-! ### Fixed-width words -/

/-- The integer as a signed word, if it fits. -/
def toInt32 (n : Int) : Except Fault Int32 :=
  if -0x80000000 ≤ n ∧ n < 0x80000000 then .ok (Int32.ofInt n) else .error .outOfRange

/-- The integer as an unsigned word, if it fits. -/
def toUInt32 (n : Int) : Except Fault UInt32 :=
  if 0 ≤ n ∧ n < 0x100000000 then .ok (UInt32.ofNat n.toNat) else .error .outOfRange

namespace Number

/-- The integer part as a signed word, if it fits. A float is cut to an integer first, which is stored like
any other. -/
def toInt32 (n : Number) : Except Fault Int32 := do
  RenderGraph.toInt32 (← n.trunc)

/-- The integer part as an unsigned word, if it fits. A float is cut to an integer first, which is stored
like any other. -/
def toUInt32 (n : Number) : Except Fault UInt32 := do
  RenderGraph.toUInt32 (← n.trunc)

/-- The number in single precision, rounded by way of double precision. -/
def toSingle (n : Number) : Except Fault Single :=
  n.toDouble.map Double.toSingle

end Number

/-! ### Buffers -/

/-- How the elements of a tensor are represented. -/
inductive Representation
  | float32
  | float64
  | int32
  | uint32
  | bool
  deriving DecidableEq, Repr

namespace Representation

/-- All representations. -/
def all : List Representation :=
  [float32, float64, int32, uint32, bool]

/-- The written name of a representation. -/
def name : Representation → String
  | float32 => "float32"
  | float64 => "float64"
  | int32 => "int32"
  | uint32 => "uint32"
  | bool => "bool"

/-- The representation with a given written name. -/
def ofName? (s : String) : Option Representation :=
  all.find? (·.name == s)

theorem ofName?_name (r : Representation) : ofName? r.name = some r := by
  cases r <;> decide

end Representation

/-- The elements of a tensor, of one representation. -/
inductive Buffer
  | float32 (xs : List Single)
  | float64 (xs : List Double)
  | int32 (xs : List Int32)
  | uint32 (xs : List UInt32)
  | bool (xs : List Bool)
  deriving DecidableEq, Repr

namespace Buffer

/-- How the elements are represented. -/
def representation : Buffer → Representation
  | float32 _ => .float32
  | float64 _ => .float64
  | int32 _ => .int32
  | uint32 _ => .uint32
  | bool _ => .bool

/-- The number of elements. -/
def size : Buffer → Nat
  | float32 xs => xs.length
  | float64 xs => xs.length
  | int32 xs => xs.length
  | uint32 xs => xs.length
  | bool xs => xs.length

/-- The elements are numbers. -/
def isNumeric (b : Buffer) : Bool :=
  b.representation ≠ .bool

/-- The buffer of some numbers. -/
def ofNumbers (r : Representation) (ns : List Number) : Except Fault Buffer :=
  match r with
  | .float32 => (ns.mapM Number.toSingle).map .float32
  | .float64 => (ns.mapM Number.toDouble).map .float64
  | .int32 => (ns.mapM Number.toInt32).map .int32
  | .uint32 => (ns.mapM Number.toUInt32).map .uint32
  | .bool => .ok (.bool (ns.map fun n => !n.isZero))

/-- A number of elements, from a place on. -/
def slice (start length : Nat) : Buffer → Buffer
  | float32 xs => .float32 ((xs.drop start).take length)
  | float64 xs => .float64 ((xs.drop start).take length)
  | int32 xs => .int32 ((xs.drop start).take length)
  | uint32 xs => .uint32 ((xs.drop start).take length)
  | bool xs => .bool ((xs.drop start).take length)

@[simp]
theorem size_slice (start length : Nat) (b : Buffer) :
    (b.slice start length).size = min length (b.size - start) := by
  cases b <;> simp [slice, size]

@[simp]
theorem representation_slice (start length : Nat) (b : Buffer) :
    (b.slice start length).representation = b.representation := by
  cases b <;> rfl

end Buffer

/-! ### Tensors -/

/-- The number of elements that a shape has room for. -/
def volume : List Nat → Nat
  | [] => 1
  | n :: shape => n * volume shape

/-- Elements arranged along axes, the last axis running fastest. -/
structure Tensor where
  shape : List Nat
  buffer : Buffer
  size_buffer : buffer.size = volume shape
  deriving DecidableEq, Repr

namespace Tensor

/-- A tensor with one axis. -/
def flat (b : Buffer) : Tensor :=
  ⟨[b.size], b, by simp [volume]⟩

/-- The tensor of a shape that some numbers fill. -/
def ofNumbers (r : Representation) (shape : List Nat) (ns : List Number) : Except Fault Tensor := do
  let b ← Buffer.ofNumbers r ns
  if h : b.size = volume shape then pure ⟨shape, b, h⟩ else throw .sizeMismatch

variable (t : Tensor)

/-- The number of axes. -/
def rank : Nat :=
  t.shape.length

/-- The tensor with elements that are converted one by one. -/
def mapBuffer (f : Buffer → Buffer) (h : ∀ b, (f b).size = b.size) : Tensor :=
  ⟨t.shape, f t.buffer, (h t.buffer).trans t.size_buffer⟩

private theorem min_volume {n w size i : Nat} (hs : size = n * w) (hi : i < n) :
    min w (size - i * w) = w := by
  have h : (i + 1) * w ≤ n * w := Nat.mul_le_mul_right w hi
  rw [Nat.add_mul, Nat.one_mul] at h
  omega

/-- The tensors along the first axis, with that axis removed. A tensor without axes has none. -/
def rows : List Tensor :=
  match h : t.shape with
  | [] => []
  | n :: shape =>
    (List.finRange n).map fun (i : Fin n) =>
      ⟨shape, t.buffer.slice (i.val * volume shape) (volume shape), by
        rw [Buffer.size_slice, min_volume (by rw [t.size_buffer, h, volume]) i.isLt]⟩

theorem length_rows : t.rows.length = t.shape.headD 0 := by
  unfold rows
  split
  · rename_i h
    simp [h]
  · rename_i h
    simp [h]

theorem shape_eq_of_mem_rows {row : Tensor} (hr : row ∈ t.rows) : row.shape = t.shape.tail := by
  unfold rows at hr
  split at hr <;> rename_i h
  · simp at hr
  · obtain ⟨i, -, rfl⟩ := List.mem_map.1 hr
    simp [h]

end Tensor

end RenderGraph
