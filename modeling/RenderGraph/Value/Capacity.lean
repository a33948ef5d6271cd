import RenderGraph.Value.Bound

/-!
# Capacity of array inputs

The capacity of an array is the length that its widget asks for, else the length of its value, else a
fallback, and at least one. The selected element is clamped into the capacity.

## Main definitions

* `Value.elementCount`: the number of elements that a value implies
* `BoundValue.capacity`, `BoundValue.selectedIndex`
* `BoundValue.declaredLength`: the length of the uniform that carries a value

## Main results

* `BoundValue.capacity_pos`: a capacity is at least one
-/

namespace RenderGraph

/-- The number of elements of a type that a value implies, zero when it implies none. Tensors with one
axis hold the components of all elements. -/
def Value.elementCount (t : DataType) : Value → Nat
  | .tensor a =>
    if 1 < a.rank then a.shape.headD 0
    else if t.components = 1 then a.buffer.size
    else a.buffer.size / t.components
  | .list items => items.length
  | _ => 0

namespace BoundValue

/-- The length that the widget asks for, if it is a number that rounds to at least one. -/
def statedLength (b : BoundValue) : Except Fault (Option Nat) :=
  match b.arrayLength with
  | some (.number n) => do
    if ← n.isFinite then
      let length ← n.round
      pure (if 1 ≤ length then some length.toNat else none)
    else pure none
  | _ => .ok none

/-- A fallback as a capacity: it is rounded, and at least one. -/
def fallbackCapacity (fallback : Number) : Except Fault Nat :=
  fallback.round.map fun n => max 1 n.toNat

/-- The capacity of an array. -/
def capacity (t : DataType) (bound : Option BoundValue) (fallback : Number) : Except Fault Nat :=
  match bound with
  | none => fallbackCapacity fallback
  | some b => do
    match ← b.statedLength with
    | some length => pure length
    | none =>
      if 1 ≤ b.value.elementCount t then pure (b.value.elementCount t)
      else fallbackCapacity fallback

/-- The index that the widget selects, if it is a finite number, else zero. -/
def statedIndex (bound : Option BoundValue) : Except Fault Int :=
  match bound.bind arrayIndex with
  | some (.number n) => do
    if ← n.isFinite then n.round else pure 0
  | _ => .ok 0

/-- The selected element of an array, within its capacity. -/
def selectedIndex (t : DataType) (bound : Option BoundValue) (fallback : Number) :
    Except Fault Nat := do
  let length ← capacity t bound fallback
  let index ← statedIndex bound
  pure (min (length - 1) index.toNat)

/-- The length of the uniform that carries a value; only arrays have one. -/
def declaredLength (t : DataType) (bound : Option BoundValue) (value : Value) (fallback : Number) :
    Except Fault (Option Nat) :=
  if t.isArray then
    let count := value.elementCount t
    (capacity t bound (if count = 0 then fallback else .int count)).map some
  else .ok none

theorem statedLength_pos {b : BoundValue} {n : Nat} (h : b.statedLength = .ok (some n)) :
    1 ≤ n := by
  unfold statedLength at h
  split at h
  · obtain ⟨finite, -, h⟩ := Fault.bind_eq_ok_iff.1 h
    cases finite with
    | false => simp [pure, Except.pure] at h
    | true =>
      obtain ⟨k, -, h⟩ := Fault.bind_eq_ok_iff.1 h
      by_cases hk : 1 ≤ k
      · simp [pure, Except.pure, hk] at h
        omega
      · simp [pure, Except.pure, hk] at h
  · simp at h

theorem fallbackCapacity_pos {fallback : Number} {n : Nat} (h : fallbackCapacity fallback = .ok n) :
    1 ≤ n := by
  unfold fallbackCapacity at h
  cases hr : fallback.round with
  | error e => simp [hr, Except.map] at h
  | ok k =>
    simp only [hr, Except.map, Except.ok.injEq] at h
    omega

/-- An array has room for at least one element. -/
theorem capacity_pos {t : DataType} {bound : Option BoundValue} {fallback : Number} {n : Nat}
    (h : capacity t bound fallback = .ok n) : 1 ≤ n := by
  unfold capacity at h
  cases bound with
  | none => exact fallbackCapacity_pos h
  | some b =>
    obtain ⟨stated, hs, h⟩ := Fault.bind_eq_ok_iff.1 h
    cases stated with
    | some length =>
      obtain rfl : length = n := by simpa [pure, Except.pure] using h
      exact statedLength_pos hs
    | none =>
      by_cases hc : 1 ≤ b.value.elementCount t
      · obtain rfl : b.value.elementCount t = n := by simpa [pure, Except.pure, hc] using h
        exact hc
      · simp only [hc, if_false] at h
        exact fallbackCapacity_pos h

end BoundValue

end RenderGraph
