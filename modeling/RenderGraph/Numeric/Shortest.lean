import RenderGraph.Numeric.Double

/-!
# The shortest decimal text of a number

The text of a number has the fewest significant digits that still read back as the same number, and
of the texts of that length it is the nearest to the number. Numbers from `10 ^ (-4)` up to, and not
including, `10 ^ 16` are written positionally, the others with an exponent of at least two digits.

## Main definitions

* `Double.shortest`: the digits and the power of ten
* `Double.text`: the text
-/

namespace RenderGraph

/-- The number of decimal digits of a positive integer. -/
def decimalWidth (n : Nat) : Nat :=
  (Nat.toDigits 10 n).length

/-- `n / d` divided by `10 ^ e`, as a ratio. -/
def scaleDecimal (n d : Nat) (e : Int) : Nat × Nat :=
  if 0 ≤ e then (n, d * Nat.pow 10 e.toNat) else (n * Nat.pow 10 (-e).toNat, d)

/-- The greatest `l` with `10 ^ l ≤ n / d`, for positive `n` and `d`. -/
def floorLogTen (n d : Nat) : Int :=
  let l := (decimalWidth n : Int) - decimalWidth d
  let (a, b) := scaleDecimal n d l
  if b ≤ a then l else l - 1

namespace Double

/-- The reals that round to a positive finite number, as two ratios over one denominator, and whether
the ends belong to them. -/
structure Neighbourhood where
  lower : Nat
  upper : Nat
  denominator : Nat
  closed : Bool

/-- The neighbourhood of `m * 2 ^ e`. Below a power of two the next number is nearer. -/
def neighbourhood (m : Nat) (e : Int) : Neighbourhood :=
  let narrow := m = Nat.pow 2 52 ∧ e ≠ -1074
  let lower := if narrow then 4 * m - 1 else 4 * m - 2
  let (low, d) := binaryRatio lower (e - 2)
  let (high, _) := binaryRatio (4 * m + 2) (e - 2)
  { lower := low, upper := high, denominator := d, closed := m % 2 = 0 }

/-- `digits * 10 ^ e` lies in the neighbourhood. -/
def Neighbourhood.holds (h : Neighbourhood) (digits : Nat) (e : Int) : Bool :=
  let (n, d) :=
    if 0 ≤ e then (digits * Nat.pow 10 e.toNat, 1) else (digits, Nat.pow 10 (-e).toNat)
  let value := n * h.denominator
  if h.closed then h.lower * d ≤ value && value ≤ h.upper * d
  else h.lower * d < value && value < h.upper * d

/-- The decimals with `count` digits next to `n / d` that lie in the neighbourhood: the nearer of
them, and of two equally near ones the even one. -/
def nearestDecimal (h : Neighbourhood) (n d count : Nat) : Option (Nat × Int) :=
  let e := floorLogTen n d - (count - 1 : Nat)
  let (a, b) := scaleDecimal n d e
  let low := a / b
  match h.holds low e, h.holds (low + 1) e with
  | true, true => some (roundHalfEven a b, e)
  | true, false => some (low, e)
  | false, true => some (low + 1, e)
  | false, false => none

/-- The digits and the power of ten of the shortest decimal of a positive finite number. Seventeen
digits always suffice. -/
def shortest (x : Double) : Nat × Int :=
  let (m, e) := doubleFormat.decode x.magnitude
  let (n, d) := binaryRatio m e
  let h := neighbourhood m e
  ((List.range 17).findSome? fun k => nearestDecimal h n d (k + 1)).getD (0, 0)

/-- The digits without zeros at the end, and the power of ten that makes up for them. -/
def stripZeros : List Char → Int → List Char × Int
  | '0' :: ds, e => stripZeros ds (e + 1)
  | ds, e => (ds.reverse, e)

/-- The exponent of the notation with an exponent. -/
def exponentText (e : Int) : String :=
  let digits := Nat.toDigits 10 e.natAbs
  (if e < 0 then "e-" else "e+") ++
    String.ofList (List.replicate (2 - digits.length) '0' ++ digits)

/-- The text of `digits * 10 ^ e`. -/
def layout (digits : List Char) (e : Int) : String :=
  let point := digits.length + e
  if -4 < point ∧ point ≤ 16 then
    if point ≤ 0 then
      "0." ++ String.ofList (List.replicate (-point).toNat '0' ++ digits)
    else if (digits.length : Int) ≤ point then
      String.ofList (digits ++ List.replicate (point - digits.length).toNat '0') ++ ".0"
    else
      String.ofList (digits.take point.toNat) ++ "." ++ String.ofList (digits.drop point.toNat)
  else
    let fraction := if digits.length ≤ 1 then "" else "." ++ String.ofList (digits.drop 1)
    String.ofList (digits.take 1) ++ fraction ++ exponentText (point - 1)

/-- The text of a number. -/
def text (x : Double) : String :=
  if x.isNaN then "nan"
  else
    let sign := if x.isNegative then "-" else ""
    if !x.isFinite then sign ++ "inf"
    else if x.isZero then sign ++ "0.0"
    else
      let (n, e) := x.shortest
      let (digits, e) := stripZeros (Nat.toDigits 10 n).reverse e
      sign ++ layout digits e

end Double

end RenderGraph
