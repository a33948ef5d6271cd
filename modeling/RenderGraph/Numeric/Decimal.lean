import RenderGraph.Numeric.Double
import RenderGraph.Numeric.Numeral
import RenderGraph.Numeric.Shortest
import RenderGraph.Text.Blank

/-!
# Reading numbers from texts

Numbers are written in decimal digits of any script, with single underscores between digits, an
optional sign and blanks around. Integers have a greatest number of digits. A number in double precision
may have any number of them, a fraction and an exponent, and it may be named `inf`, `infinity` or `nan`,
in any case.

## Main definitions

* `Decimal.readInt?`
* `Decimal.readDouble?`
-/

namespace RenderGraph.Decimal

/-- A blank that may surround a number: the information separators are not. -/
def isMargin (c : Char) : Bool :=
  Text.isBlank c && !(28 ≤ c.toNat && c.toNat ≤ 31)

/-- The digit of ASCII with the same value; any other character is kept. -/
def plainDigit (c : Char) : Char :=
  match Text.digitValue? c with
  | some d => Char.ofNat (48 + d)
  | none => c

/-- The text without underscores, each of which has to stand between two digits. -/
def dropSeparators : Option Char → List Char → Option (List Char)
  | _, [] => some []
  | prev, c :: cs =>
    if c = '_' then
      if prev.any Char.isDigit && cs.head?.any Char.isDigit then dropSeparators (some c) cs
      else none
    else (dropSeparators (some c) cs).map (c :: ·)

/-- The characters of a number in plain form: margins removed, digits of ASCII, no underscores. -/
def plain? (s : String) : Option (List Char) :=
  dropSeparators none ((Text.trimChars isMargin s.toList).map plainDigit)

/-- The sign at the front of a number, and the rest. -/
def sign : List Char → Bool × List Char
  | '-' :: cs => (true, cs)
  | '+' :: cs => (false, cs)
  | cs => (false, cs)

/-- A nonempty list of digits, read as a number. -/
def digits? (cs : List Char) : Option Nat :=
  if !cs.isEmpty && cs.all Char.isDigit then some (Text.numeral cs) else none

/-- The integer that a text denotes, unless it has too many digits. -/
def readInt? (s : String) : Option Int :=
  (plain? s).bind fun cs =>
    let (negative, cs) := sign cs
    if cs.length ≤ Numeral.greatestLength then (digits? cs).map (Double.signed negative) else none

/-- The digits, without a point, and the power of ten that they are multiplied by. -/
def significand? (cs : List Char) : Option (List Char × Int × List Char) :=
  let whole := cs.takeWhile Char.isDigit
  let (fraction, rest) :=
    match cs.dropWhile Char.isDigit with
    | '.' :: cs => (cs.takeWhile Char.isDigit, cs.dropWhile Char.isDigit)
    | cs => ([], cs)
  if (whole ++ fraction).isEmpty then none
  else some (whole ++ fraction, -(fraction.length : Int), rest)

/-- The exponent that ends a number. -/
def exponent? : List Char → Option Int
  | [] => some 0
  | c :: cs =>
    if c = 'e' || c = 'E' then
      let (negative, cs) := sign cs
      (digits? cs).map (Double.signed negative)
    else none

/-- The number nearest to `n * 10 ^ e`. Powers of ten beyond the range of the format are not
computed. -/
def nearest (negative : Bool) (n : Nat) (e : Int) : Double :=
  let top := (decimalWidth n : Int) + e
  if n = 0 ∨ top < -400 then Double.ofMagnitude negative 0
  else if 400 < top then Double.infinity negative
  else
    let (a, b) := scaleDecimal n 1 (-e)
    Double.ofRatio negative a b

/-- A named number, in small letters. -/
def named? (negative : Bool) (name : String) : Option Double :=
  if name = "inf" ∨ name = "infinity" then some (Double.infinity negative)
  else if name = "nan" then some .nan
  else none

/-- The number in double precision that a text denotes. -/
def readDouble? (s : String) : Option Double :=
  (plain? s).bind fun cs =>
    let (negative, cs) := sign cs
    match named? negative (String.ofList (cs.map Char.toLower)) with
    | some x => some x
    | none =>
      (significand? cs).bind fun (digits, e, rest) =>
        (exponent? rest).map fun power => nearest negative (Text.numeral digits) (e + power)

end RenderGraph.Decimal
