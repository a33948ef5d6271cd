import RenderGraph.Fault
import RenderGraph.Text.Digit

/-!
# Numerals of bounded length

Handles, directives and pragmas hold natural numbers as runs of decimal digits. A run may be long, but
not arbitrarily long: reading fails beyond `Numeral.greatestLength` digits, and leading zeros count.

## Main definitions

* `Numeral.read`

## Main results

* `Numeral.read_eq_ok_iff`: which runs can be read, and as what
-/

namespace RenderGraph.Numeral

/-- The greatest number of digits that can be read. -/
def greatestLength : Nat :=
  4300

/-- The number that a run of digits denotes. It fails when the run is too long. -/
def read (digits : List Char) : Except Fault Nat :=
  if digits.length ≤ greatestLength then .ok (Text.numeral digits) else .error .longNumeral

theorem read_eq_ok_iff {digits : List Char} {n : Nat} :
    read digits = .ok n ↔ digits.length ≤ greatestLength ∧ Text.numeral digits = n := by
  by_cases h : digits.length ≤ greatestLength <;> simp [read, h]

end RenderGraph.Numeral
