/-!
# Classes of characters as tables of ranges

A class is a list of closed ranges of code points. `contains` is a plain search, so membership of a
concrete character is decided by evaluation.

## Main definitions

* `CharClass`: a class of characters
* `CharClass.contains`: membership
-/

namespace RenderGraph

/-- A class of characters: closed ranges of code points. -/
structure CharClass where
  ranges : List (Nat × Nat)

namespace CharClass

/-- The character's code point lies in one of the ranges. -/
def contains (k : CharClass) (c : Char) : Bool :=
  k.ranges.any fun r => r.1 ≤ c.toNat && c.toNat ≤ r.2

theorem contains_iff (k : CharClass) (c : Char) :
    k.contains c = true ↔ ∃ r ∈ k.ranges, r.1 ≤ c.toNat ∧ c.toNat ≤ r.2 := by
  simp [contains, List.any_eq_true]

end CharClass

end RenderGraph
