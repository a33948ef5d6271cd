/-!
# Binary floating point formats

A format has `precision` significant bits and the least positive value `2 ^ (-least)`. Its
nonnegative values are numbered by their codes in increasing order, starting with zero; the code of
infinity follows the code of the greatest finite value. A code's leading bits tell the exponent and
its last `precision - 1` bits the fraction, as in the interchange formats.

Everything is exact arithmetic on natural numbers: a ratio is rounded to the nearest value, and of
two equally near ones to the one whose code is even.

## Main definitions

* `roundHalfEven`: the nearest integer to a ratio
* `BinaryFormat.code`: the code of the value nearest to a ratio
* `BinaryFormat.decode`: significand and exponent of a code
-/

namespace RenderGraph

/-- The integer nearest to `n / d`; of two equally near ones, the even one. -/
def roundHalfEven (n d : Nat) : Nat :=
  if 2 * (n % d) < d then n / d
  else if d < 2 * (n % d) then n / d + 1
  else n / d + n / d % 2

theorem le_roundHalfEven (n d : Nat) : n / d ≤ roundHalfEven n d := by
  unfold roundHalfEven
  split
  · exact Nat.le_refl _
  · split <;> omega

theorem roundHalfEven_le (n d : Nat) : roundHalfEven n d ≤ n / d + 1 := by
  unfold roundHalfEven
  split
  · omega
  · split <;> omega

/-- `n / d` divided by `2 ^ e`, as a ratio. -/
def scaleBinary (n d : Nat) (e : Int) : Nat × Nat :=
  if 0 ≤ e then (n, d * Nat.pow 2 e.toNat) else (n * Nat.pow 2 (-e).toNat, d)

/-- The greatest `l` with `2 ^ l ≤ n / d`, for positive `n` and `d`. -/
def floorLogTwo (n d : Nat) : Int :=
  let l := (n.log2 : Int) - d.log2
  let (a, b) := scaleBinary n d l
  if b ≤ a then l else l - 1

/-- A binary floating point format. -/
structure BinaryFormat where
  /-- Number of significant bits. -/
  precision : Nat
  /-- The least positive value is `2 ^ (-least)`. -/
  least : Nat
  /-- The code of infinity. -/
  infinity : Nat
  deriving DecidableEq, Repr

namespace BinaryFormat

variable (f : BinaryFormat)

/-- The code of the value nearest to `n / d`. -/
def code (n d : Nat) : Nat :=
  if n = 0 ∨ d = 0 then 0
  else
    let e := max (-(f.least : Int)) (floorLogTwo n d - (f.precision - 1 : Nat))
    let (a, b) := scaleBinary n d e
    min f.infinity ((e + f.least).toNat * Nat.pow 2 (f.precision - 1) + roundHalfEven a b)

/-- The significand `m` and the exponent `e` of the finite value `m * 2 ^ e` with a given code. -/
def decode (code : Nat) : Nat × Int :=
  let field := code / Nat.pow 2 (f.precision - 1)
  let fraction := code % Nat.pow 2 (f.precision - 1)
  if field = 0 then (fraction, -f.least)
  else (fraction + Nat.pow 2 (f.precision - 1), (field : Int) - 1 - f.least)

theorem code_le_infinity (n d : Nat) : f.code n d ≤ f.infinity := by
  unfold code
  split
  · exact Nat.zero_le _
  · exact Nat.min_le_left _ _

end BinaryFormat

/-- `m * 2 ^ e` as a ratio. -/
def binaryRatio (m : Nat) (e : Int) : Nat × Nat :=
  if 0 ≤ e then (m * Nat.pow 2 e.toNat, 1) else (m, Nat.pow 2 (-e).toNat)

end RenderGraph
