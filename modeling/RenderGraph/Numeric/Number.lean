import RenderGraph.Numeric.Shortest

/-!
# Numbers of either representation

Documents tell integers and numbers in double precision apart, and so does everything that is made
of them. Integers are unbounded; converting one to double precision fails when it is too great.

## Main definitions

* `Number`
* `Number.toDouble`, `Number.round`, `Number.trunc`, `Number.toInt?`
* `Number.isFinite`, `Number.isZero`, `Number.atMost`
* `Number.text`
-/

namespace RenderGraph

/-- An integer or a number in double precision. -/
inductive Number
  | int (n : Int)
  | float (x : Double)
  deriving DecidableEq, Repr

namespace Number

instance : Coe Int Number :=
  ⟨int⟩

/-- The number in double precision. -/
def toDouble : Number → Except Fault Double
  | int n => Double.ofInt n
  | float x => .ok x

/-- The nearest integer; of two equally near ones, the even one. -/
def round : Number → Except Fault Int
  | int n => .ok n
  | float x => x.round

/-- The integer part. -/
def trunc : Number → Except Fault Int
  | int n => .ok n
  | float x => x.trunc

/-- The integer that the number equals. -/
def toInt? : Number → Option Int
  | int n => some n
  | float x => x.toInt?

/-- The number is at most a given natural number. -/
def atMost (n : Number) (k : Nat) : Bool :=
  match n with
  | int n => n ≤ k
  | float x => x.atMost k

/-- The number in double precision is finite. -/
def isFinite (n : Number) : Except Fault Bool :=
  n.toDouble.map Double.isFinite

def isZero : Number → Bool
  | int n => n = 0
  | float x => x.isZero

/-- The shortest text of a number. -/
def text : Number → String
  | int n => toString n
  | float x => x.text

@[simp]
theorem round_int (n : Int) : (int n).round = .ok n :=
  rfl

@[simp]
theorem trunc_int (n : Int) : (int n).trunc = .ok n :=
  rfl

end Number

end RenderGraph
