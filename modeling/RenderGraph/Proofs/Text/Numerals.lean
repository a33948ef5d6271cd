import RenderGraph.Text.Scan

/-!
# Natural numbers in a text

A natural number is written by decimal digits alone, so that it can be read back from a text that goes on
with anything but a digit.

## Main definitions

* `Text.readNat?`: the number at the front of a text
* `Text.before?`: the text in front of a given end

## Main results

* `Text.toString_inj`: a number can be told from its digits
* `Text.readNat?_toString`, `Text.before?_append`: what was written is read
-/

namespace RenderGraph.Text

theorem toList_toString (k : Nat) : (toString k).toList = Nat.toDigits 10 k := by
  rw [Nat.toString_eq_ofList_toDigits, String.toList_ofList]

theorem isDigit_of_mem_toString {k : Nat} {c : Char} (h : c ∈ (toString k).toList) :
    c.isDigit = true :=
  Nat.isDigit_of_mem_toDigits (by decide) (by decide) (toList_toString k ▸ h)

theorem toString_inj {m k : Nat} (h : toString m = toString k) : m = k := by
  rw [← Nat.ofDigitChars_ten_toDigits (n := m), ← toList_toString, h, toList_toString,
    Nat.ofDigitChars_ten_toDigits]

/-- The number that the digits at the front of a text mean, and what follows them. There has to be a digit. -/
def readNat? (cs : List Char) : Option (Nat × List Char) :=
  if (cs.takeWhile Char.isDigit).isEmpty then none
  else some (Nat.ofDigitChars 10 (cs.takeWhile Char.isDigit) 0, cs.dropWhile Char.isDigit)

/-- A number is read up to the first character that is no digit. -/
theorem readNat?_toString (k : Nat) {rest : List Char} (h : ∀ c ∈ rest.head?, c.isDigit = false) :
    readNat? ((toString k).toList ++ rest) = some (k, rest) := by
  have hstop : rest.takeWhile Char.isDigit = [] ∧ rest.dropWhile Char.isDigit = rest := by
    cases rest with
    | nil => exact ⟨rfl, rfl⟩
    | cons c rest =>
      have hc : ¬ c.isDigit = true := by simp [h c rfl]
      exact ⟨List.takeWhile_cons_of_neg hc, List.dropWhile_cons_of_neg hc⟩
  have htake : ((toString k).toList ++ rest).takeWhile Char.isDigit = Nat.toDigits 10 k := by
    rw [List.takeWhile_append_of_pos fun _ => isDigit_of_mem_toString, hstop.1, List.append_nil,
      toList_toString]
  have hdrop : ((toString k).toList ++ rest).dropWhile Char.isDigit = rest := by
    rw [List.dropWhile_append_of_pos fun _ => isDigit_of_mem_toString, hstop.2]
  have hne : (Nat.toDigits 10 k).isEmpty = false := by
    simp [List.isEmpty_eq_false_iff, Nat.toDigits_ne_nil]
  rw [readNat?, htake, hdrop, hne, Nat.ofDigitChars_ten_toDigits]
  rfl

/-- The text in front of a given end. -/
def before? (tail cs : List Char) : Option (List Char) :=
  (after? tail.reverse cs.reverse).map List.reverse

theorem before?_append (cs tail : List Char) : before? tail (cs ++ tail) = some cs := by
  have hafter : after? tail.reverse (tail.reverse ++ cs.reverse) = some cs.reverse :=
    after?_eq_some_iff.2 rfl
  rw [before?, List.reverse_append, hafter, Option.map_some, List.reverse_reverse]

end RenderGraph.Text
