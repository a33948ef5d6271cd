import RenderGraph.Numeric.Number

/-!
# The characters of numbers

The text of a number is made of digits, signs, a point, and the letters of an exponent or of the names of
numbers that are not finite.

## Main definitions

* `Number.IsMark`: a character that may stand in the text of a number

## Main results

* `Number.isMark_of_mem_text`
-/

namespace RenderGraph

namespace Number

/-- The character may stand in the text of a number. -/
def IsMark (c : Char) : Prop :=
  c.isDigit = true ∨ c ∈ ['-', '+', '.', 'e', 'i', 'n', 'f', 'a']

instance : DecidablePred IsMark :=
  fun _ => inferInstanceAs (Decidable (_ ∨ _))

/-- All characters of the text may stand in the text of a number. -/
def Marked (s : String) : Prop :=
  ∀ c ∈ s.toList, IsMark c

instance (s : String) : Decidable (Marked s) :=
  List.decidableBAll IsMark s.toList

namespace Marked

variable {s t : String}

theorem append (h : Marked s) (h' : Marked t) : Marked (s ++ t) := by
  rw [Marked, String.toList_append]
  exact List.forall_mem_append.2 ⟨h, h'⟩

theorem ofList {cs : List Char} (h : ∀ c ∈ cs, IsMark c) : Marked (String.ofList cs) := by
  rwa [Marked, String.toList_ofList]

/-- Digits behind some zeros. -/
theorem padded {k : Nat} {ds : List Char} (h : ∀ c ∈ ds, IsMark c) :
    Marked (String.ofList (List.replicate k '0' ++ ds)) := by
  refine .ofList (List.forall_mem_append.2 ⟨fun c hc => ?_, h⟩)
  rw [List.eq_of_mem_replicate hc]
  decide

end Marked

theorem isMark_of_mem_toDigits {c : Char} {n : Nat} (h : c ∈ Nat.toDigits 10 n) : IsMark c :=
  Or.inl (Nat.isDigit_of_mem_toDigits (by decide) (by decide) h)

theorem marked_repr (n : Nat) : Marked n.repr := by
  rw [Marked, Nat.toList_repr]
  exact fun c hc => isMark_of_mem_toDigits hc

end Number

namespace Double

open Number (IsMark Marked isMark_of_mem_toDigits)

private theorem isMark_of_mem_stripZeros {ds : List Char} {e : Int} (h : ∀ c ∈ ds, IsMark c) :
    ∀ c ∈ (stripZeros ds e).1, IsMark c := by
  fun_induction stripZeros ds e with
  | case1 ds e ih => exact ih fun c hc => h c (List.mem_cons_of_mem _ hc)
  | case2 ds e hne => exact fun c hc => h c (List.mem_reverse.1 hc)

private theorem marked_exponentText (e : Int) : Marked (exponentText e) := by
  unfold exponentText
  refine Marked.append ?_ (.padded fun c hc => isMark_of_mem_toDigits hc)
  split <;> decide

private theorem marked_layout {digits : List Char} {e : Int} (h : ∀ c ∈ digits, IsMark c) :
    Marked (layout digits e) := by
  have htake (k : Nat) : Marked (String.ofList (digits.take k)) :=
    .ofList fun c hc => h c (List.mem_of_mem_take hc)
  have hdrop (k : Nat) : Marked (String.ofList (digits.drop k)) :=
    .ofList fun c hc => h c (List.mem_of_mem_drop hc)
  unfold layout
  dsimp only
  split
  · split
    · exact Marked.append (by decide) (.padded h)
    · split
      · refine Marked.append (.ofList (List.forall_mem_append.2 ⟨h, fun c hc => ?_⟩)) (by decide)
        rw [List.eq_of_mem_replicate hc]
        decide
      · exact ((htake _).append (by decide)).append (hdrop _)
  · refine ((htake 1).append ?_).append (marked_exponentText _)
    split
    · decide
    · exact Marked.append (by decide) (hdrop 1)

theorem marked_text (x : Double) : Marked x.text := by
  have hsign (negative : Bool) : Marked (if negative = true then "-" else "") := by
    cases negative <;> decide
  rw [text]
  split
  · decide
  dsimp only
  split
  · exact (hsign _).append (by decide)
  split
  · exact (hsign _).append (by decide)
  · refine (hsign _).append (marked_layout (isMark_of_mem_stripZeros fun c hc => ?_))
    exact isMark_of_mem_toDigits (List.mem_reverse.1 hc)

end Double

/-- Numbers are written with few characters. -/
theorem Number.marked_text (n : Number) : Marked n.text := by
  cases n with
  | int n =>
    rw [Number.text, Int.toString_eq_repr, Int.repr_eq_if]
    split
    · exact marked_repr _
    · exact Marked.append (by decide) (marked_repr _)
  | float x => exact x.marked_text

end RenderGraph
