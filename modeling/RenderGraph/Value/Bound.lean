import RenderGraph.DataType
import RenderGraph.Keyed
import RenderGraph.Value.Default

/-!
# Values bound to inputs

A bound value is the value that a user sets for an input, with the type it was set for. How it is
edited is kept beside it; for arrays that includes the wanted length and the selected element.

## Main definitions

* `BoundValue`, `BoundValue.ofValue`
* `BoundValue.migrate`: conversion to another type
* `BoundValue.conform`: the bound value that an input of a given type may hold
-/

namespace RenderGraph

/-- The type that a value of a document means; an absent or empty one means `float`. -/
def DataType.ofValue (v : Value) : Except Fault DataType := do
  if ← v.truth then
    match v with
    | .text s => pure (DataType.parse s)
    | _ => throw .notText
  else pure .float

/-- A value that a user has set for an input. -/
structure BoundValue where
  type : DataType
  value : Value := .null
  /-- How the value is edited; it has no meaning here. -/
  widget : Value := .null
  /-- Settings of the widget, among them the length and the selected element of arrays. -/
  settings : Keyed Value := .empty

namespace BoundValue

/-- The bound value that a document describes. -/
def ofValue (v : Value) : Except Fault BoundValue := do
  let value ← v.field "value"
  let type ← DataType.ofValue (← v.field "type")
  let widget ← v.field "widget"
  let settings ← v.field "widgetConfig"
  let settings ← if ← settings.truth then
      match settings with
      | .map fields => pure (Keyed.ofList fields)
      | _ => throw .wrongShape
    else pure .empty
  pure { type, value, widget, settings }

/-- The wanted length of an array, as it was set. -/
def arrayLength (b : BoundValue) : Option Value :=
  b.settings.get? "arrayLength"

/-- The selected element of an array, as it was set. -/
def arrayIndex (b : BoundValue) : Option Value :=
  b.settings.get? "arrayIndex"

/-! ### Conversion to other types -/

/-- A number as the value of a scalar type. -/
def scalarValue (t : DataType) (n : Number) : Except Fault Value :=
  match t with
  | .int | .uint => n.trunc.map Value.int
  | .bool => .ok (.bool !n.isZero)
  | _ => .ok (.number n)

/-- Numbers as a vector: surplus ones are dropped and missing ones are zero. -/
def vectorValue (t : DataType) (items : List Value) : Value :=
  .list (items.take t.components ++
    List.replicate (t.components - items.length) (.float .zero))

/-- The value converted to a type. Scalars are repeated in vectors, vectors give their first
component to scalars and are cut or padded for other vectors; everything else becomes the default. -/
def convert (t : DataType) (v : Value) : Except Fault Value :=
  if t.isSampler || t.isArray || t.isMatrix then .ok (t.defaultValue defaultLength)
  else
    match v with
    | .number n =>
      if t.isVector then .ok (.list (List.replicate t.components v)) else scalarValue t n
    | .list items =>
      if !items.all Value.isNumber then .ok (t.defaultValue defaultLength)
      else if t.isVector then .ok (vectorValue t items)
      else
        match items with
        | .number n :: _ => scalarValue t n
        | _ => scalarValue t (.float .zero)
    | _ => .ok (t.defaultValue defaultLength)

/-- The value with tensors written out as lists. -/
def plainValue (v : Value) : Except Fault Value :=
  match v with
  | .tensor t => if t.rank = 0 then .error .wrongShape else .ok t.nested
  | v => .ok v

/-- The bound value converted to a type; an absent one becomes the default. The widget is kept. -/
def migrate (bound : Option BoundValue) (t : DataType) : Except Fault BoundValue :=
  match bound with
  | none => .ok { type := t, value := t.defaultValue defaultLength }
  | some b => do
    let value ← convert t (← plainValue b.value)
    pure { b with type := t, value }

/-- The bound value has the type, and its value fits it. -/
def conforms (b : BoundValue) (t : DataType) : Bool :=
  b.type = t && b.value.fits t

/-- The bound value that an input of the type may hold: one of another type is converted, and a value
that does not fit its own type is exchanged for the default. -/
def conform (bound : Option BoundValue) (t : DataType) : Except Fault BoundValue :=
  match bound with
  | none => migrate none t
  | some b =>
    if b.type ≠ t then migrate (some b) t
    else if b.value.fits t then .ok b
    else .ok { b with value := t.defaultValue defaultLength }

/-! ### Values that conform -/

theorem fits_scalarValue {t : DataType} {n : Number} {v : Value} (ht : t.isScalar = true)
    (h : scalarValue t n = .ok v) : v.fits t = true := by
  cases t with
  | int | uint =>
    obtain ⟨k, -, rfl⟩ : ∃ k, n.trunc = .ok k ∧ Value.int k = v := by
      cases hn : n.trunc <;> simp_all [scalarValue, Except.map]
    rfl
  | bool | float =>
    cases h
    rfl
  | _ => cases ht

theorem fits_vector {t : DataType} {items : List Value} (ht : t.isVector = true)
    (hi : items.all Value.isNumber = true) (hl : items.length = t.components) :
    (Value.list items).fits t = true := by
  cases t with
  | vec2 | vec3 | vec4 | uvec2 | uvec3 | uvec4 =>
    simp only [Value.fits, Value.isNumberSequence, Value.length, hi, hl, beq_self_eq_true,
      Bool.and_self]
  | _ => cases ht

/-- A converted value fits its type. -/
theorem fits_of_convert {t : DataType} {v w : Value} (h : convert t v = .ok w) :
    w.fits t = true := by
  have hdefault : (t.defaultValue defaultLength).fits t = true := t.fits_defaultValue _
  unfold convert at h
  split at h
  · cases h
    exact hdefault
  next hplain =>
  -- What is no vector is a scalar here.
  have hscalar (hv : ¬ t.isVector = true) : t.isScalar = true := by
    cases t <;> simp_all [DataType.isSampler, DataType.isArray, DataType.isMatrix,
      DataType.isVector, DataType.isScalar]
  cases v with
  | number n =>
    dsimp only at h
    split at h
    · next hv =>
      cases h
      exact fits_vector hv (by simp [Value.isNumber]) List.length_replicate
    · next hv => exact fits_scalarValue (hscalar hv) h
  | list items =>
    dsimp only at h
    split at h
    · cases h
      exact hdefault
    next hitems =>
    have hnumbers : items.all Value.isNumber = true := by simpa using hitems
    split at h
    · next hv =>
      cases h
      refine fits_vector hv ?_ ?_
      · rw [List.all_append, Bool.and_eq_true]
        refine ⟨List.all_eq_true.2 fun v hm => ?_, List.all_eq_true.2 fun v hm => ?_⟩
        · exact List.all_eq_true.1 hnumbers v (List.mem_of_mem_take hm)
        · rw [List.eq_of_mem_replicate hm]
          rfl
      · rw [List.length_append, List.length_take, List.length_replicate]
        omega
    · next hv =>
      split at h
      · exact fits_scalarValue (hscalar hv) h
      · exact fits_scalarValue (hscalar hv) h
  | _ =>
    cases h
    exact hdefault

theorem conforms_of_migrate {bound : Option BoundValue} {t : DataType} {b : BoundValue}
    (h : migrate bound t = .ok b) : b.conforms t = true := by
  unfold conforms
  cases bound with
  | none =>
    cases h
    rw [t.fits_defaultValue, decide_eq_true rfl, Bool.and_self]
  | some c =>
    obtain ⟨v, -, h⟩ := Fault.bind_eq_ok_iff.1 h
    obtain ⟨w, hw, h⟩ := Fault.bind_eq_ok_iff.1 h
    cases h
    rw [fits_of_convert hw, decide_eq_true rfl, Bool.and_self]

/-- What was brought in line conforms, so that it is left alone from then on. -/
theorem conforms_of_conform {bound : Option BoundValue} {t : DataType} {b : BoundValue}
    (h : conform bound t = .ok b) : b.conforms t = true := by
  unfold conform at h
  cases bound with
  | none => exact conforms_of_migrate h
  | some c =>
    dsimp only at h
    split at h
    · exact conforms_of_migrate h
    next htype =>
    have htype : c.type = t := Decidable.not_not.1 htype
    split at h
    · next hfits =>
      cases h
      simp [conforms, htype, hfits]
    · cases h
      simp [conforms, htype, t.fits_defaultValue]

theorem conform_of_conforms {b : BoundValue} {t : DataType} (h : b.conforms t = true) :
    conform (some b) t = .ok b := by
  simp only [conforms, Bool.and_eq_true, decide_eq_true_eq] at h
  simp [conform, h.1, h.2]

end BoundValue

end RenderGraph
