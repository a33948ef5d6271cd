import RenderGraph.Numeric.Binary
import RenderGraph.Fault

/-!
# Numbers in double and in single precision

A `Double` is the bit pattern of a number in double precision, a `Single` that of one in single
precision. Conversions go through exact ratios, so every rounding is to nearest with ties to even.

## Main definitions

* `Double`, `Double.ofRatio`, `Double.ofInt`, `Double.trunc`, `Double.round`
* `Single`, `Double.toSingle`, `Single.toDouble`
-/

namespace RenderGraph

/-- The format of double precision. -/
def doubleFormat : BinaryFormat :=
  { precision := 53, least := 1074, infinity := 0x7FF0000000000000 }

/-- The format of single precision. -/
def singleFormat : BinaryFormat :=
  { precision := 24, least := 149, infinity := 0x7F800000 }

/-- A number in double precision, by its bits. -/
structure Double where
  bits : UInt64
  deriving DecidableEq, Repr

/-- A number in single precision, by its bits. -/
structure Single where
  bits : UInt32
  deriving DecidableEq, Repr

namespace Double

/-- The number has the sign bit. -/
def isNegative (x : Double) : Bool :=
  Nat.pow 2 63 ≤ x.bits.toNat

/-- The code of the absolute value. -/
def magnitude (x : Double) : Nat :=
  x.bits.toNat % Nat.pow 2 63

def isFinite (x : Double) : Bool :=
  x.magnitude < doubleFormat.infinity

def isNaN (x : Double) : Bool :=
  doubleFormat.infinity < x.magnitude

def isZero (x : Double) : Bool :=
  x.magnitude = 0

/-- The number with a given sign and a given code of its absolute value. -/
def ofMagnitude (negative : Bool) (code : Nat) : Double :=
  ⟨UInt64.ofNat (code + if negative then Nat.pow 2 63 else 0)⟩

def zero : Double :=
  ⟨0⟩

def one : Double :=
  ⟨0x3FF0000000000000⟩

def nan : Double :=
  ⟨0x7FF8000000000000⟩

/-- Infinity of a given sign. -/
def infinity (negative : Bool) : Double :=
  ofMagnitude negative doubleFormat.infinity

/-- The number nearest to `n / d`, with a given sign. -/
def ofRatio (negative : Bool) (n d : Nat) : Double :=
  ofMagnitude negative (doubleFormat.code n d)

/-- The absolute value of a finite number, as a ratio. -/
def ratio (x : Double) : Nat × Nat :=
  let (m, e) := doubleFormat.decode x.magnitude
  binaryRatio m e

/-- The number nearest to an integer. It fails when the integer is too great. -/
def ofInt (n : Int) : Except Fault Double :=
  let code := doubleFormat.code n.natAbs 1
  if code < doubleFormat.infinity then .ok (ofMagnitude (n < 0) code) else .error .outOfRange

/-- An absolute value with a sign. -/
def signed (negative : Bool) (n : Nat) : Int :=
  if negative then -(n : Int) else n

/-- The conversion of a finite number by a rounding of its absolute value. -/
def toIntBy (rounding : Nat → Nat → Nat) (x : Double) : Except Fault Int :=
  if x.isNaN then .error .notNumeric
  else if x.isFinite then
    let (n, d) := x.ratio
    .ok (signed x.isNegative (rounding n d))
  else .error .outOfRange

/-- The integer part. -/
def trunc (x : Double) : Except Fault Int :=
  x.toIntBy (· / ·)

/-- The nearest integer; of two equally near ones, the even one. -/
def round (x : Double) : Except Fault Int :=
  x.toIntBy roundHalfEven

/-- The number is at most a given natural number. -/
def atMost (x : Double) (n : Nat) : Bool :=
  if x.isNaN then false
  else if x.isNegative then true
  else
    let (a, b) := x.ratio
    x.isFinite && a ≤ n * b

/-- The integer that the number equals. -/
def toInt? (x : Double) : Option Int :=
  if x.isFinite then
    let (n, d) := x.ratio
    if n % d = 0 then some (signed x.isNegative (n / d)) else none
  else none

/-- `a / b` in percent, rounded after the division and after the multiplication. -/
def percentage (a b : Nat) : Double :=
  let (n, d) := (ofRatio false a b).ratio
  ofRatio false (100 * n) d

/-- The nearest number in single precision. -/
def toSingle (x : Double) : Single :=
  let code :=
    if x.isNaN then singleFormat.infinity + Nat.pow 2 22
    else if x.isFinite then
      let (n, d) := x.ratio
      singleFormat.code n d
    else singleFormat.infinity
  ⟨UInt32.ofNat (code + if x.isNegative then Nat.pow 2 31 else 0)⟩

end Double

namespace Single

def zero : Single :=
  ⟨0⟩

/-- The code of the absolute value. -/
def magnitude (x : Single) : Nat :=
  x.bits.toNat % Nat.pow 2 31

def isNaN (x : Single) : Bool :=
  singleFormat.infinity < x.magnitude

/-- The same number in double precision. -/
def toDouble (x : Single) : Double :=
  let negative := Nat.pow 2 31 ≤ x.bits.toNat
  if x.isNaN then .nan
  else if x.magnitude < singleFormat.infinity then
    let (m, e) := singleFormat.decode x.magnitude
    let (n, d) := binaryRatio m e
    Double.ofRatio negative n d
  else Double.infinity negative

end Single

end RenderGraph
